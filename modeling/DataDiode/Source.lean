import DataDiode.Proto
import Mathlib.Tactic.Linarith

/-!
# The File Being Sent

The sender looks at a source file through separate system calls — a length, an open, reads, a
removal — while other programs may write to it. `Source` is that file as the file system
holds it: contents by inode number, the inode currently under the path, and a **schedule**
that says what other programs do before each of the sender's calls and how the call turns
out. A schedule that has run out means nobody interferes.

`readChunk` is the sender's read loop on a buffered reader, with short and interrupted reads.

## Main results

* `bufRead_progress`: a read either uses up a step of the schedule or takes its bytes off
  what is left of the file.
* `readChunk_progress`: so does a run of the read loop.
-/

namespace DataDiode

/-- What another program does to the source file. -/
inductive WriterAction
  /-- Give the file new contents in place: append, truncate, rewrite. -/
  | rewrite (contents : Bytes)
  /-- Put a new file in its place. -/
  | replace (contents : Bytes)
  deriving DecidableEq, Repr

/-- How a system call turns out. -/
inductive Outcome
  | ok
  /-- A read that returns at most `n + 1` bytes. -/
  | short (n : ℕ)
  | interrupted
  | failed
  deriving DecidableEq, Repr

/-- What happens around one system call. -/
structure Plan where
  actions : List WriterAction
  outcome : Outcome
  deriving DecidableEq, Repr

/-- A source file. -/
structure Source where
  /-- Contents by inode number. -/
  inodes : List Bytes
  /-- The inode under the path. -/
  current : Option ℕ
  /-- What happens around the sender's next calls. -/
  schedule : List Plan
  deriving DecidableEq, Repr

namespace Source

/-- A file with the given contents that nobody else touches. -/
def ofContents (contents : Bytes) : Source := ⟨[contents], some 0, []⟩

/-- The contents of an inode. -/
def contentsOf (s : Source) (inode : ℕ) : Bytes := s.inodes.getD inode []

/-- Another program acts. -/
def act (s : Source) : WriterAction → Source
  | .rewrite contents =>
      match s.current with
      | some i => { s with inodes := s.inodes.set i contents }
      | none => { s with inodes := s.inodes ++ [contents], current := some s.inodes.length }
  | .replace contents =>
      { s with inodes := s.inodes ++ [contents], current := some s.inodes.length }

/-- The next step of the schedule. -/
def turn (s : Source) : Outcome × Source :=
  match s.schedule with
  | [] => (.ok, s)
  | plan :: rest => (plan.outcome, plan.actions.foldl act { s with schedule := rest })

/-- `fs::metadata(path)?.len()`. -/
def metadataLen (s : Source) : Option ℕ × Source :=
  match s.turn with
  | (.failed, s) => (none, s)
  | (_, s) => (s.current.map fun i => (s.contentsOf i).length, s)

/-- `fs::File::open(path)?`: the inode under the path. -/
def openFile (s : Source) : Option ℕ × Source :=
  match s.turn with
  | (.failed, s) => (none, s)
  | (_, s) => (s.current, s)

/-- `fs::remove_file(path)?`: whether there was something to remove. -/
def removeFile (s : Source) : Bool × Source :=
  match s.turn with
  | (.failed, s) => (false, s)
  | (_, s) => (s.current.isSome, { s with current := none })

end Source

/-- The result of a read. -/
inductive ReadResult
  | data (bytes : Bytes)
  | interrupted
  | failed

/-- Capacity of the buffered reader. -/
def fileReadBuffer : ℕ := 64 * 1024

/-- A buffered reader: the open inode, the offset of the next system call, and the bytes
read ahead. -/
structure Reader where
  inode : ℕ
  offset : ℕ
  buffered : Bytes

/-- A reader at the front of a file. -/
def Reader.new (inode : ℕ) : Reader := ⟨inode, 0, []⟩

/-- What a reader has yet to return, as the file stands. -/
def Reader.remaining (r : Reader) (s : Source) : Bytes :=
  r.buffered ++ (s.contentsOf r.inode).drop r.offset

/-- Hand out buffered bytes. -/
def Reader.take (r : Reader) (want : ℕ) : Bytes × Reader :=
  (r.buffered.take want, { r with buffered := r.buffered.drop want })

/-- One read of at most `want` bytes: from the buffer, refilled by one system call if it is
empty. -/
def bufRead (s : Source) (r : Reader) (want : ℕ) : ReadResult × Reader × Source :=
  if r.buffered ≠ [] then (.data (r.take want).1, (r.take want).2, s)
  else
    match s.turn with
    | (.failed, s) => (.failed, r, s)
    | (.interrupted, s) => (.interrupted, r, s)
    | (outcome, s) =>
        let size := match outcome with
          | .short n => min (n + 1) fileReadBuffer
          | _ => fileReadBuffer
        let bytes := ((s.contentsOf r.inode).drop r.offset).take size
        let r := { r with buffered := bytes, offset := r.offset + bytes.length }
        (.data (r.take want).1, (r.take want).2, s)

/-- What a writer does leaves the schedule alone. -/
theorem schedule_foldl_act (actions : List WriterAction) (s : Source) :
    (actions.foldl Source.act s).schedule = s.schedule := by
  induction actions generalizing s with
  | nil => rfl
  | cons a actions ih =>
      rw [List.foldl_cons, ih]
      cases a with
      | rewrite c =>
          rw [Source.act]
          split <;> rfl
      | replace c => rfl

/-- A call uses up the next step of the schedule, if there is one. -/
theorem turn_cases (s : Source) :
    s.turn.2.schedule.length < s.schedule.length ∨ s.schedule = [] ∧ s.turn = (.ok, s) := by
  cases h : s.schedule with
  | nil => exact Or.inr ⟨rfl, by rw [Source.turn, h]⟩
  | cons plan rest =>
      left
      simp only [Source.turn, h, schedule_foldl_act, List.length_cons]
      omega

/-- What is read comes before what remains. -/
theorem Reader.take_append (r : Reader) (s : Source) (want : ℕ) :
    r.remaining s = (r.take want).1 ++ (r.take want).2.remaining s := by
  simp only [remaining, take, ← List.append_assoc, List.take_append_drop]

/-- **Progress of a read**: it uses up a step of the schedule, or the file stands still and
the bytes returned are the front of what was left. -/
theorem bufRead_progress (s : Source) (r : Reader) (want : ℕ) :
    (bufRead s r want).2.2.schedule.length < s.schedule.length ∨
      (bufRead s r want).2.2 = s ∧ ∃ bytes, (bufRead s r want).1 = .data bytes ∧
        r.remaining s = bytes ++ (bufRead s r want).2.1.remaining s := by
  rw [bufRead]
  split
  · exact Or.inr ⟨rfl, _, rfl, r.take_append s want⟩
  · rename_i hbuf
    rw [ne_eq, not_not] at hbuf
    rcases turn_cases s with hlt | ⟨-, hturn⟩
    · left
      split <;> rename_i h <;> rw [h] at hlt <;> exact hlt
    · right
      rw [hturn]
      refine ⟨rfl, _, rfl, ?_⟩
      rw [← Reader.take_append]
      simp only [Reader.remaining, hbuf, List.nil_append]
      set tail := (s.contentsOf r.inode).drop r.offset with htail
      rw [← List.drop_drop, ← htail]
      conv_lhs => rw [← List.take_append_drop (tail.take fileReadBuffer).length tail]
      rw [List.length_take]
      congr 1
      rcases le_total fileReadBuffer tail.length with h | h
      · rw [min_eq_left h]
      · rw [min_eq_right h, List.take_of_length_le h, List.take_of_length_le le_rfl]

/-- The sender's read loop: read until `want` bytes are there or the file ends. -/
def readChunk (s : Source) (r : Reader) (want : ℕ) (acc : Bytes) :
    Option Bytes × Reader × Source :=
  if want = 0 then (some acc, r, s)
  else
    match _h : bufRead s r want with
    | (.failed, r, s) => (none, r, s)
    | (.interrupted, r', s') => readChunk s' r' want acc
    | (.data bytes, r', s') =>
        if bytes = [] then (some acc, r', s')
        else readChunk s' r' (want - bytes.length) (acc ++ bytes)
  termination_by (s.schedule.length, want)
  decreasing_by
    · have hp := bufRead_progress s r want
      rw [_h] at hp
      rcases hp with hlt | ⟨-, bytes, hbytes, -⟩
      · exact Prod.Lex.left _ _ hlt
      · exact absurd hbytes (by simp)
    · have hp := bufRead_progress s r want
      rw [_h] at hp
      rename_i hne
      have hpos := List.length_pos_iff.mpr hne
      rcases hp with hlt | ⟨hs, -⟩
      · exact Prod.Lex.left _ _ hlt
      · simp only at hs
        subst hs
        exact Prod.Lex.right _ (by omega)

/-- **Progress of the read loop**: it uses up steps of the schedule, or the file stands still
and the bytes returned are the front of what was left. -/
theorem readChunk_progress (s : Source) (r : Reader) (want : ℕ) (acc : Bytes) :
    (readChunk s r want acc).2.2.schedule.length < s.schedule.length ∨
      (readChunk s r want acc).2.2 = s ∧ ∀ bytes, (readChunk s r want acc).1 = some bytes →
        ∃ fresh, bytes = acc ++ fresh ∧
          r.remaining s = fresh ++ (readChunk s r want acc).2.1.remaining s := by
  fun_induction readChunk s r want acc with
  | case1 s r acc => exact Or.inr ⟨rfl, fun bytes h => ⟨[], by simpa using h.symm, rfl⟩⟩
  | case2 s r want acc hw r' s' hread =>
      have hp := bufRead_progress s r want
      rw [hread] at hp
      rcases hp with hlt | ⟨-, bytes, hbytes, -⟩
      · exact Or.inl hlt
      · exact absurd hbytes (by simp)
  | case3 s r want acc hw r' s' hread ih =>
      have hp := bufRead_progress s r want
      rw [hread] at hp
      rcases hp with hlt | ⟨-, bytes, hbytes, -⟩
      · rcases ih with ih | ih
        · exact Or.inl (lt_trans ih hlt)
        · exact Or.inl (by rw [ih.1]; exact hlt)
      · exact absurd hbytes (by simp)
  | case4 s r want acc hw r' s' hread =>
      have hp := bufRead_progress s r want
      rw [hread] at hp
      rcases hp with hlt | ⟨hs, bytes, hbytes, hrem⟩
      · exact Or.inl hlt
      · rw [← ReadResult.data.inj hbytes, List.nil_append] at hrem
        exact Or.inr ⟨hs, fun bytes h => ⟨[], by simpa using h.symm, hrem⟩⟩
  | case5 s r want acc hw bytes r' s' hread hb ih =>
      have hp := bufRead_progress s r want
      rw [hread] at hp
      rcases hp with hlt | ⟨hs, bytes', hbytes, hrem⟩
      · rcases ih with ih | ih
        · exact Or.inl (lt_trans ih hlt)
        · exact Or.inl (by rw [ih.1]; exact hlt)
      · simp only at hs
        subst hs
        rw [← ReadResult.data.inj hbytes] at hrem
        rcases ih with ih | ⟨hsame, ih⟩
        · exact Or.inl ih
        · refine Or.inr ⟨hsame, fun out hout => ?_⟩
          obtain ⟨fresh, rfl, hrest⟩ := ih out hout
          exact ⟨bytes ++ fresh, by rw [List.append_assoc],
            by rw [hrem, hrest, List.append_assoc]⟩

end DataDiode
