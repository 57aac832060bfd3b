import Mathlib.Data.List.Basic
import Mathlib.Data.Sum.Basic

/-!
# Pipelines

Threads that hand items on through unbounded first-in-first-out channels. An **agent** does one
action after the other and gives out items. A **consumer** takes items off a channel, one at a time,
each with an answer of its surroundings, and gives out items in turn. `Agent.into` puts a channel
and a consumer behind an agent, which makes an agent again; its schedules interleave those of the
parts in any way.

No part can tell how it is scheduled against the others: what it does depends on its own actions and
on the items it gets, and these come in the order in which they were given out.

## Main results

* `Agent.run_into`: behind an agent that runs by itself, the consumer has handled the front of what
  was given out, and the rest is in the channel.
* `Agent.run_into_of_parts`: the schedule that lets the agent finish first.
* `Interleaves.filter_left`: the parts of an interleaving that a test tells apart.
-/

/-- Something that does one action after the other, if it can, and gives out items. -/
structure Agent (Act St Out : Type*) where
  step : St → Act → Option (St × List Out)

/-- A thread that takes items off a channel, each with an answer of its surroundings. -/
structure Consumer (Item Ans St Out : Type*) where
  step : St → Item → Ans → St × List Out

/-- `zs` consists of `xs` and `ys`, each in its order. -/
inductive Interleaves {Item : Type*} : List Item → List Item → List Item → Prop
  | nil : Interleaves [] [] []
  | left (x : Item) {xs ys zs : List Item} (h : Interleaves xs ys zs) :
      Interleaves (x :: xs) ys (x :: zs)
  | right (y : Item) {xs ys zs : List Item} (h : Interleaves xs ys zs) :
      Interleaves xs (y :: ys) (y :: zs)

/-! ### Schedules of two parts -/

section Schedules

variable {α β : Type*}

/-- The actions of the first part. -/
def lefts (sched : List (α ⊕ β)) : List α := sched.filterMap Sum.getLeft?

/-- The actions of the second part. -/
def rights (sched : List (α ⊕ β)) : List β := sched.filterMap Sum.getRight?

/-- No actions, none of the second part. -/
@[simp] theorem rights_nil : rights ([] : List (α ⊕ β)) = [] := rfl

/-- An action of the first part. -/
@[simp] theorem lefts_inl (a : α) (sched : List (α ⊕ β)) :
    lefts (.inl a :: sched) = a :: lefts sched := rfl

/-- Actions of the second part do not count for the first. -/
@[simp] theorem lefts_inr (b : β) (sched : List (α ⊕ β)) :
    lefts (.inr b :: sched) = lefts sched := rfl

/-- Actions of the first part do not count for the second. -/
@[simp] theorem rights_inl (a : α) (sched : List (α ⊕ β)) :
    rights (.inl a :: sched) = rights sched := rfl

/-- An action of the second part. -/
@[simp] theorem rights_inr (b : β) (sched : List (α ⊕ β)) :
    rights (.inr b :: sched) = b :: rights sched := rfl

/-- The first part of two schedules. -/
theorem lefts_append (sched sched' : List (α ⊕ β)) :
    lefts (sched ++ sched') = lefts sched ++ lefts sched' := List.filterMap_append

/-- The second part of two schedules. -/
theorem rights_append (sched sched' : List (α ⊕ β)) :
    rights (sched ++ sched') = rights sched ++ rights sched' := List.filterMap_append

/-- The first part alone. -/
@[simp] theorem lefts_map_inl (as : List α) : lefts (as.map (Sum.inl : α → α ⊕ β)) = as := by
  induction as with
  | nil => rfl
  | cons a as ih => rw [List.map_cons, lefts_inl, ih]

/-- A schedule of the first part has nothing to do for the second. -/
@[simp] theorem rights_map_inl (as : List α) : rights (as.map (Sum.inl : α → α ⊕ β)) = [] := by
  induction as with
  | nil => rfl
  | cons a as ih => rw [List.map_cons, rights_inl, ih]

/-- The second part alone, in which the first has nothing to do. -/
@[simp] theorem lefts_map_inr (bs : List β) : lefts (bs.map (Sum.inr : β → α ⊕ β)) = [] := by
  induction bs with
  | nil => rfl
  | cons b bs ih => rw [List.map_cons, lefts_inr, ih]

/-- The second part alone. -/
@[simp] theorem rights_map_inr (bs : List β) : rights (bs.map (Sum.inr : β → α ⊕ β)) = bs := by
  induction bs with
  | nil => rfl
  | cons b bs ih => rw [List.map_cons, rights_inr, ih]

end Schedules

/-! ### Interleavings -/

namespace Interleaves

variable {Item : Type*} {xs ys zs : List Item}

/-- One sequence after the other. -/
theorem of_append (xs ys : List Item) : Interleaves xs ys (xs ++ ys) := by
  induction xs with
  | nil =>
      induction ys with
      | nil => exact .nil
      | cons y ys ih => exact .right y ih
  | cons x xs ih => exact .left x ih

/-- Interleavings one after the other. -/
theorem append {xs' ys' zs' : List Item} (h : Interleaves xs ys zs)
    (h' : Interleaves xs' ys' zs') : Interleaves (xs ++ xs') (ys ++ ys') (zs ++ zs') := by
  induction h with
  | nil => exact h'
  | left x h ih => exact .left x ih
  | right y h ih => exact .right y ih

/-- The part of `zs` that a test tells apart. -/
theorem filter_left (h : Interleaves xs ys zs) {p : Item → Bool} (hxs : ∀ x ∈ xs, p x = true)
    (hys : ∀ y ∈ ys, p y = false) : zs.filter p = xs := by
  induction h with
  | nil => rfl
  | left x h ih =>
      rw [List.filter_cons_of_pos (hxs x List.mem_cons_self),
        ih (fun y hy => hxs y (List.mem_cons_of_mem x hy)) hys]
  | right y h ih =>
      rw [List.filter_cons_of_neg (by simp [hys y List.mem_cons_self]),
        ih hxs fun z hz => hys z (List.mem_cons_of_mem y hz)]

/-- What a partial function that is not defined on `xs` makes of `zs`. -/
theorem filterMap_right {Out : Type*} (h : Interleaves xs ys zs) {f : Item → Option Out}
    (hxs : ∀ x ∈ xs, f x = none) : zs.filterMap f = ys.filterMap f := by
  induction h with
  | nil => rfl
  | left x h ih =>
      rw [List.filterMap_cons_none (hxs x List.mem_cons_self),
        ih fun z hz => hxs z (List.mem_cons_of_mem x hz)]
  | right y h ih => rw [List.filterMap_cons, List.filterMap_cons, ih hxs]

end Interleaves

namespace Consumer

variable {Item Ans St Out : Type*} (C : Consumer Item Ans St Out)

/-- The consumer on a sequence of items with their answers. -/
def run : List (Item × Ans) → St → St × List Out
  | [], s => (s, [])
  | (b, e) :: items, s =>
      ((run items (C.step s b e).1).1, (C.step s b e).2 ++ (run items (C.step s b e).1).2)

/-- Without items there is nothing to do. -/
@[simp] theorem run_nil (s : St) : C.run [] s = (s, []) := rfl

/-- One item, and the others. -/
theorem run_cons (b : Item) (e : Ans) (items : List (Item × Ans)) (s : St) :
    C.run ((b, e) :: items) s = ((C.run items (C.step s b e).1).1,
      (C.step s b e).2 ++ (C.run items (C.step s b e).1).2) := rfl

end Consumer

namespace Agent

variable {Act St Out : Type*} (A : Agent Act St Out)

/-- The actions of a schedule, one after the other, and the items given out on the way. -/
def run : List Act → St → Option (St × List Out)
  | [], s => some (s, [])
  | a :: sched, s =>
      (A.step s a).bind fun r => (run sched r.1).map fun r' => (r'.1, r.2 ++ r'.2)

/-- Without actions there is nothing to do. -/
@[simp] theorem run_nil (s : St) : A.run [] s = some (s, []) := rfl

/-- One action, and the others. -/
theorem run_cons_eq_some_iff {a : Act} {sched : List Act} {s : St} {r : St × List Out} :
    A.run (a :: sched) s = some r ↔ ∃ s₁ front rest, A.step s a = some (s₁, front) ∧
      A.run sched s₁ = some (r.1, rest) ∧ r.2 = front ++ rest := by
  simp only [run, Option.bind_eq_some_iff, Option.map_eq_some_iff]
  constructor
  · rintro ⟨⟨s₁, front⟩, hstep, ⟨s', rest⟩, hrest, rfl⟩
    exact ⟨s₁, front, rest, hstep, hrest, rfl⟩
  · rintro ⟨s₁, front, rest, hstep, hrest, hout⟩
    exact ⟨(s₁, front), hstep, (r.1, rest), hrest, by rw [← hout]⟩

/-- One schedule after the other. -/
theorem run_append_eq_some {sched sched' : List Act} {s s₁ s₂ : St} {front rest : List Out}
    (h : A.run sched s = some (s₁, front)) (h' : A.run sched' s₁ = some (s₂, rest)) :
    A.run (sched ++ sched') s = some (s₂, front ++ rest) := by
  induction sched generalizing s front with
  | nil =>
      obtain ⟨rfl, rfl⟩ := Prod.mk.inj (Option.some.inj h)
      exact h'
  | cons a sched ih =>
      obtain ⟨s₀, first, more, hstep, hrun, hfront⟩ := A.run_cons_eq_some_iff.mp h
      refine A.run_cons_eq_some_iff.mpr ⟨s₀, first, more ++ rest, hstep, ih hrun, ?_⟩
      rw [show front = first ++ more from hfront, List.append_assoc]

/-! ### A consumer behind an agent -/

section Into

variable {Item Ans St' : Type*} {Out' : Type*}

/-- An agent, the channel behind it, and the thread that takes its items off the channel. -/
structure Link (St Item St' : Type*) where
  front : St
  queue : List Item
  back : St'

/-- A thread behind an agent. -/
def into (A : Agent Act St Item) (C : Consumer Item Ans St' Out') :
    Agent (Act ⊕ Ans) (Link St Item St') Out' where
  step l act :=
    match act with
    | .inl a => (A.step l.front a).map fun r =>
        ({ l with front := r.1, queue := l.queue ++ r.2 }, [])
    | .inr e =>
        match l.queue with
        | [] => none
        | b :: queue =>
            some ({ l with queue := queue, back := (C.step l.back b e).1 }, (C.step l.back b e).2)

variable {A : Agent Act St Item} {C : Consumer Item Ans St' Out'}

/-- **The parts of a pipeline**: the agent runs its own actions; the consumer has handled as many
items as it had turns, from the front of what was in the channel and what was given out; the others
are in the channel. -/
theorem run_into {sched : List (Act ⊕ Ans)} {l : Link St Item St'}
    {r : Link St Item St' × List Out'}
    (h : (A.into C).run sched l = some r) :
    ∃ given, A.run (lefts sched) l.front = some (r.1.front, given) ∧
      (rights sched).length ≤ (l.queue ++ given).length ∧
      r.1.queue = (l.queue ++ given).drop (rights sched).length ∧
      (r.1.back, r.2) = C.run ((l.queue ++ given).zip (rights sched)) l.back := by
  induction sched generalizing l r with
  | nil =>
      obtain rfl := Option.some.inj h
      exact ⟨[], rfl, Nat.zero_le _, by simp, by simp⟩
  | cons act sched ih =>
      obtain ⟨l₁, front, rest, hstep, hrun, hout⟩ := run_cons_eq_some_iff _ |>.mp h
      obtain ⟨given, hfront, hle, hqueue, hback⟩ := ih hrun
      cases act with
      | inl a =>
          obtain ⟨⟨s₁, items⟩, hact, heq⟩ := Option.map_eq_some_iff.mp hstep
          obtain ⟨rfl, rfl⟩ := Prod.mk.inj heq
          simp only [List.append_assoc] at hle hqueue hback
          refine ⟨items ++ given, ?_, hle, hqueue, ?_⟩
          · exact A.run_cons_eq_some_iff.mpr ⟨s₁, items, given, hact, hfront, rfl⟩
          · rw [hout, List.nil_append]
            exact hback
      | inr e =>
          obtain ⟨s, queue, t⟩ := l
          cases queue with
          | nil => exact absurd hstep (by simp [into])
          | cons b queue =>
              obtain ⟨rfl, rfl⟩ := Prod.mk.inj (Option.some.inj hstep)
              refine ⟨given, hfront, ?_, hqueue, ?_⟩
              · simpa using hle
              · rw [rights_inr, List.cons_append, List.zip_cons_cons, Consumer.run_cons, ← hback,
                  hout]

variable (A C) in
/-- The consumer alone, on items that are in the channel. -/
theorem run_into_inr (items : List Item) (answers : List Ans) (s : St) (t : St')
    (h : answers.length ≤ items.length) :
    (A.into C).run (answers.map .inr) ⟨s, items, t⟩ =
      some (⟨s, items.drop answers.length, (C.run (items.zip answers) t).1⟩,
        (C.run (items.zip answers) t).2) := by
  induction answers generalizing items t with
  | nil => simp
  | cons e answers ih =>
      cases items with
      | nil => exact absurd h (by simp)
      | cons b items =>
          have hrest := ih items (C.step t b e).1 (Nat.le_of_succ_le_succ h)
          exact (A.into C).run_cons_eq_some_iff.mpr ⟨_, _, _, rfl, hrest, rfl⟩

/-- The agent alone, filling the channel. -/
theorem run_into_inl {acts : List Act} {s s' : St} {given : List Item}
    (h : A.run acts s = some (s', given)) (queue : List Item) (t : St') :
    (A.into C).run (acts.map .inl) ⟨s, queue, t⟩ = some (⟨s', queue ++ given, t⟩, []) := by
  induction acts generalizing s queue given with
  | nil =>
      obtain ⟨rfl, rfl⟩ := Prod.mk.inj (Option.some.inj h)
      simp
  | cons a acts ih =>
      obtain ⟨s₁, front, rest, hstep, hrun, hgiven⟩ := A.run_cons_eq_some_iff.mp h
      refine (A.into C).run_cons_eq_some_iff.mpr
        ⟨⟨s₁, queue ++ front, t⟩, [], [], ?_, ?_, rfl⟩
      · simp [into, hstep]
      · rw [ih hrun, show given = front ++ rest from hgiven, List.append_assoc]

variable (C) in
/-- **The agent first**: whatever its parts can do on their own they do in the pipeline, one after
the other. -/
theorem run_into_of_parts {acts : List Act} (answers : List Ans) {l : Link St Item St'} {s' : St}
    {given : List Item} (h : A.run acts l.front = some (s', given))
    (hle : answers.length ≤ (l.queue ++ given).length) :
    (A.into C).run (acts.map .inl ++ answers.map .inr) l =
      some (⟨s', (l.queue ++ given).drop answers.length,
          (C.run ((l.queue ++ given).zip answers) l.back).1⟩,
        (C.run ((l.queue ++ given).zip answers) l.back).2) :=
  (A.into C).run_append_eq_some (run_into_inl h l.queue l.back)
    (run_into_inr A C _ answers s' l.back hle)

end Into

end Agent
