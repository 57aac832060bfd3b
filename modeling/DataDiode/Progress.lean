import DataDiode.Chunks

/-!
# The Progress of a Transfer

What the receiver's treatment of the chunks of one file comes down to: it collects the packets
of one batch at a time, moves on to the next batch only with enough of them, and gives up
otherwise (`Progress`). Whether a sequence of chunks goes through depends on how many packets
of each batch are in it.

## Main results

* `Transfer.describes_progress`: chunks in the order of their batches, and where they lead.
* `Transfer.enough_progress_iff`: the chunks that lead to a file that can be published.
* `Transfer.exists_progress_of_enough`: enough chunks of every batch lead to the last batch.
* `Transfer.exists_progress_allIds`: all chunks of the file do, from wherever a transfer of it
  has come to.
-/

namespace DataDiode

/-- How far a transfer has come: given up, or collecting the packets of a batch. -/
inductive Progress
  | failed
  | collecting (b : ℕ) (got : List ChunkId)
  deriving DecidableEq, Repr

namespace Transfer

variable (t : Transfer)

/-- The packets gathered for a batch suffice to restore it. -/
def Enough (b : ℕ) (got : List ChunkId) : Prop := t.batchSize b ≤ got.toFinset.card

/-- Counting decides it. -/
instance (b : ℕ) (got : List ChunkId) : Decidable (t.Enough b got) :=
  inferInstanceAs (Decidable (_ ≤ _))

/-- One chunk arrives. -/
def progress : Progress → ChunkId → Progress
  | .failed, _ => .failed
  | .collecting b got, c =>
      if c.batch < b then .collecting b got
      else if c.batch = b then .collecting b (c :: got)
      else if c.batch = b + 1 ∧ t.Enough b got then .collecting c.batch [c]
      else .failed

/-- The chunks of one batch among others. -/
def ofBatch (ids : List ChunkId) (b : ℕ) : List ChunkId := ids.filter fun c => c.batch = b

/-- Chunks arrive in the order of their batches. -/
def InOrder (ids : List ChunkId) : Prop := ids.Pairwise fun c c' => c.batch ≤ c'.batch

variable {t}

/-- What has arrived of a batch. -/
theorem mem_ofBatch {ids : List ChunkId} {b : ℕ} {c : ChunkId} :
    c ∈ ofBatch ids b ↔ c ∈ ids ∧ c.batch = b := by
  rw [ofBatch, List.mem_filter, decide_eq_true_eq]

/-- A chunk of another batch does not count. -/
theorem ofBatch_append_ne {ids : List ChunkId} {b : ℕ} {c : ChunkId} (h : c.batch ≠ b) :
    ofBatch (ids ++ [c]) b = ofBatch ids b := by
  rw [ofBatch, List.filter_append, List.filter_cons_of_neg (by simpa using h), List.filter_nil,
    List.append_nil]
  rfl

/-- One more chunk of the batch. -/
theorem mem_ofBatch_append {ids : List ChunkId} {b : ℕ} {c c' : ChunkId} (hc : c.batch = b) :
    c' ∈ ofBatch (ids ++ [c]) b ↔ c' = c ∨ c' ∈ ofBatch ids b := by
  rw [mem_ofBatch, mem_ofBatch, List.mem_append, List.mem_singleton]
  constructor
  · rintro ⟨h | rfl, hb⟩
    · exact Or.inr ⟨h, hb⟩
    · exact Or.inl rfl
  · rintro (rfl | ⟨h, hb⟩)
    · exact ⟨Or.inr rfl, hc⟩
    · exact ⟨Or.inl h, hb⟩

/-- Nothing has arrived of a batch. -/
theorem ofBatch_eq_nil {ids : List ChunkId} {b : ℕ} (h : ∀ c ∈ ids, c.batch ≠ b) :
    ofBatch ids b = [] :=
  List.filter_eq_nil_iff.mpr fun c hc => by simpa using h c hc

/-- Nothing suffices for a batch that has no chunks only. -/
theorem not_enough_nil {b : ℕ} (hb : b < t.batchCount) : ¬t.Enough b [] := by
  have hpos := t.batchSize_pos_iff.mpr hb
  rw [Enough, List.toFinset_nil, Finset.card_empty]
  omega

/-- Only what has arrived counts, not in which order. -/
theorem Enough.congr {b : ℕ} {got got' : List ChunkId} (h : t.Enough b got)
    (hgot : ∀ c, c ∈ got ↔ c ∈ got') : t.Enough b got' := by
  have : got.toFinset = got'.toFinset := by
    ext c
    rw [List.mem_toFinset, List.mem_toFinset, hgot c]
  rwa [Enough, ← this]

variable (t) in
/-- What the chunks that arrived say about the progress. -/
def Describes (ids : List ChunkId) : Progress → Prop
  | .failed => ∃ c ∈ ids, ∃ b < c.batch, ¬t.Enough b (ofBatch ids b)
  | .collecting b got => (∀ c, c ∈ got ↔ c ∈ ofBatch ids b) ∧ (∀ c ∈ ids, c.batch ≤ b) ∧
      (∀ b' < b, t.Enough b' (ofBatch ids b')) ∧ (b = 0 ∨ ∃ c ∈ ids, c.batch = b)

section Describes

variable {ids : List ChunkId} {b : ℕ} {got : List ChunkId} {c : ChunkId}

/-- One more chunk of the batch collected. -/
theorem Describes.gather (h : t.Describes ids (.collecting b got)) (hc : c.batch = b) :
    t.Describes (ids ++ [c]) (.collecting b (c :: got)) := by
  obtain ⟨hgot, hle, hearlier, -⟩ := h
  have hmem : c ∈ ids ++ [c] := List.mem_append_right _ List.mem_cons_self
  refine ⟨fun c' => ?_, fun c' hc' => ?_, fun b' hb' => ?_, Or.inr ⟨c, hmem, hc⟩⟩
  · rw [List.mem_cons, hgot c', mem_ofBatch_append hc]
  · rcases List.mem_append.mp hc' with h | h
    · exact hle c' h
    · exact (List.mem_singleton.mp h ▸ hc).le
  · rw [ofBatch_append_ne (by omega)]
    exact hearlier b' hb'

/-- The first chunk of the next batch, once the batch collected is complete. -/
theorem Describes.moveOn (h : t.Describes ids (.collecting b got)) (henough : t.Enough b got)
    (hc : c.batch = b + 1) : t.Describes (ids ++ [c]) (.collecting c.batch [c]) := by
  obtain ⟨hgot, hle, hearlier, -⟩ := h
  have hmem : c ∈ ids ++ [c] := List.mem_append_right _ List.mem_cons_self
  have hnone : ofBatch ids c.batch = [] :=
    ofBatch_eq_nil fun c' hc' => by have := hle c' hc'; omega
  refine ⟨fun c' => ?_, fun c' hc' => ?_, fun b' hb' => ?_, Or.inr ⟨c, hmem, rfl⟩⟩
  · rw [mem_ofBatch_append rfl, hnone, List.mem_singleton]
    exact (or_iff_left List.not_mem_nil).symm
  · rcases List.mem_append.mp hc' with h | h
    · have := hle c' h
      omega
    · rw [List.mem_singleton.mp h]
  · rw [ofBatch_append_ne (by omega)]
    rcases Nat.lt_or_ge b' b with h | h
    · exact hearlier b' h
    · rw [show b' = b by omega]
      exact henough.congr hgot

/-- A chunk of a later batch that the receiver cannot move on to. -/
theorem Describes.giveUp (h : t.Describes ids (.collecting b got)) (hc : t.HasChunk c)
    (hlater : b < c.batch) (hstuck : ¬(c.batch = b + 1 ∧ t.Enough b got)) :
    t.Describes (ids ++ [c]) .failed := by
  obtain ⟨hgot, hle, -, -⟩ := h
  have hmem : c ∈ ids ++ [c] := List.mem_append_right _ List.mem_cons_self
  by_cases henough : t.Enough b got
  · -- a batch is missed altogether
    have hskip : b + 1 < c.batch := by
      have : c.batch ≠ b + 1 := fun h => hstuck ⟨h, henough⟩
      omega
    refine ⟨c, hmem, b + 1, hskip, ?_⟩
    rw [ofBatch_append_ne (by omega),
      ofBatch_eq_nil fun c' hc' => by have := hle c' hc'; omega]
    exact not_enough_nil (hskip.trans hc.batch_lt)
  · refine ⟨c, hmem, b, hlater, fun h => henough (h.congr fun c' => ?_)⟩
    rw [ofBatch_append_ne (by omega), hgot c']

end Describes

/-- One more chunk, of the last batch or a later one. -/
theorem Describes.step {ids : List ChunkId} {s : Progress} (h : t.Describes ids s) {c : ChunkId}
    (hc : t.HasChunk c) (hlast : ∀ c' ∈ ids, c'.batch ≤ c.batch) :
    t.Describes (ids ++ [c]) (t.progress s c) := by
  cases s with
  | failed =>
      obtain ⟨c', hc', b, hb, hmissing⟩ := h
      refine ⟨c', List.mem_append_left _ hc', b, hb, ?_⟩
      rwa [ofBatch_append_ne (by have := hlast c' hc'; omega)]
  | collecting b got =>
      have hbatch : b ≤ c.batch := by
        obtain ⟨-, -, -, hreached⟩ := h
        rcases hreached with h0 | ⟨c', hc', hb⟩
        · omega
        · exact hb ▸ hlast c' hc'
      rw [progress, if_neg (not_lt.mpr hbatch)]
      by_cases heq : c.batch = b
      · rw [if_pos heq]
        exact h.gather heq
      · rw [if_neg heq]
        by_cases hnext : c.batch = b + 1 ∧ t.Enough b got
        · rw [if_pos hnext]
          exact h.moveOn hnext.2 hnext.1
        · rw [if_neg hnext]
          exact h.giveUp hc (by omega) hnext

/-- **Chunks in the order of their batches**, and where they lead. -/
theorem describes_progress {ids : List ChunkId} (hids : ∀ c ∈ ids, t.HasChunk c)
    (horder : InOrder ids) : t.Describes ids (ids.foldl t.progress (.collecting 0 [])) := by
  induction ids using List.reverseRecOn with
  | nil => exact ⟨fun c => Iff.rfl, fun c hc => absurd hc List.not_mem_nil,
      fun b hb => absurd hb (Nat.not_lt_zero b), Or.inl rfl⟩
  | append_singleton ids c ih =>
      obtain ⟨hfront, -, hlast⟩ := List.pairwise_append.mp horder
      rw [List.foldl_append, List.foldl_cons, List.foldl_nil]
      exact (ih (fun c' hc' => hids c' (List.mem_append_left _ hc')) hfront).step
        (hids c (List.mem_append_right _ List.mem_cons_self))
        fun c' hc' => hlast c' hc' c List.mem_cons_self

/-- **The chunks that suffice**: the progress ends at batch `b` with enough packets of it
exactly if there are enough packets of every batch up to `b`, none of a later one, and some
of batch `b` itself unless it is the first. -/
theorem enough_progress_iff {ids : List ChunkId} (hids : ∀ c ∈ ids, t.HasChunk c)
    (horder : InOrder ids) {b : ℕ} :
    (∃ got, ids.foldl t.progress (.collecting 0 []) = .collecting b got ∧ t.Enough b got) ↔
      (∀ b' ≤ b, t.Enough b' (ofBatch ids b')) ∧ (∀ c ∈ ids, c.batch ≤ b) ∧
        (b = 0 ∨ ∃ c ∈ ids, c.batch = b) := by
  have h := describes_progress hids horder
  constructor
  · rintro ⟨got, heq, henough⟩
    rw [heq] at h
    obtain ⟨hgot, hle, hearlier, hreached⟩ := h
    refine ⟨fun b' hb' => ?_, hle, hreached⟩
    rcases Nat.lt_or_eq_of_le hb' with hlt | rfl
    · exact hearlier b' hlt
    · exact henough.congr hgot
  · rintro ⟨henough, hle, hreached⟩
    cases hs : ids.foldl t.progress (.collecting 0 []) with
    | failed =>
        rw [hs] at h
        obtain ⟨c, hc, b', hb', hmissing⟩ := h
        exact absurd (henough b' (hb'.le.trans (hle c hc))) hmissing
    | collecting b₁ got =>
        rw [hs] at h
        obtain ⟨hgot, hle₁, -, hreached₁⟩ := h
        have hlast : b₁ = b := by
          refine le_antisymm ?_ ?_
          · rcases hreached₁ with rfl | ⟨c, hc, rfl⟩
            · exact Nat.zero_le _
            · exact hle c hc
          · rcases hreached with rfl | ⟨c, hc, rfl⟩
            · exact Nat.zero_le _
            · exact hle₁ c hc
        rw [hlast] at hgot ⊢
        exact ⟨got, rfl, (henough b le_rfl).congr fun c => (hgot c).symm⟩

/-- Past the last batch nothing is missing. -/
theorem enough_of_le {b : ℕ} {got : List ChunkId} (hb : t.batchCount ≤ b) : t.Enough b got := by
  rw [Enough, Nat.eq_zero_of_not_pos (t.batchSize_pos_iff.not.mpr (not_lt.mpr hb))]
  exact Nat.zero_le _

/-- **Enough chunks of every batch** lead to the last one. -/
theorem exists_progress_of_enough {ids : List ChunkId} (hids : ∀ c ∈ ids, t.HasChunk c)
    (horder : InOrder ids) (henough : ∀ b < t.batchCount, t.Enough b (ofBatch ids b)) :
    ∃ b got, ids.foldl t.progress (.collecting 0 []) = .collecting b got ∧ t.Enough b got ∧
      t.batchCount ≤ b + 1 := by
  have hcover : ∀ b ≤ t.batchCount - 1, t.Enough b (ofBatch ids b) := fun b _ =>
    (Nat.lt_or_ge b t.batchCount).elim (henough b) enough_of_le
  have hreached : t.batchCount - 1 = 0 ∨ ∃ c ∈ ids, c.batch = t.batchCount - 1 := by
    by_cases hzero : t.batchCount - 1 = 0
    · exact Or.inl hzero
    · -- the last batch has chunks, so some of its packets are there
      right
      have hlast := henough (t.batchCount - 1) (by omega)
      have hne : ofBatch ids (t.batchCount - 1) ≠ [] := fun hnil =>
        not_enough_nil (t := t) (b := t.batchCount - 1) (by omega) (hnil ▸ hlast)
      obtain ⟨c, hc⟩ := List.exists_mem_of_ne_nil _ hne
      exact ⟨c, mem_ofBatch.mp hc⟩
  obtain ⟨got, hs, hgot⟩ := (enough_progress_iff hids horder).mpr
    ⟨hcover, fun c hc => Nat.le_sub_one_of_lt (hids c hc).batch_lt, hreached⟩
  exact ⟨t.batchCount - 1, got, hs, hgot, by omega⟩

/-! ### All chunks of a file -/

variable (t) in
/-- The names of all chunks of the file, in the order they are sent in. -/
def allIds : List ChunkId := (List.range t.batchCount).flatMap t.batchIds

/-- The names of all chunks of a file, batch by batch. -/
theorem mem_allIds {c : ChunkId} : c ∈ t.allIds ↔ t.HasChunk c := by
  rw [allIds, List.mem_flatMap]
  constructor
  · rintro ⟨b, hb, hc⟩
    exact ((t.mem_batchIds (List.mem_range.mp hb)).mp hc).1
  · exact fun hc => ⟨c.batch, List.mem_range.mpr hc.batch_lt,
      (t.mem_batchIds hc.batch_lt).mpr ⟨hc, rfl⟩⟩

/-- Chunks of an earlier batch are passed over. -/
theorem foldl_progress_of_lt {ids : List ChunkId} {b : ℕ} (h : ∀ c ∈ ids, c.batch < b)
    (got : List ChunkId) :
    ids.foldl t.progress (.collecting b got) = .collecting b got := by
  induction ids with
  | nil => rfl
  | cons c ids ih =>
      rw [List.foldl_cons, progress, if_pos (h c List.mem_cons_self)]
      exact ih fun c' hc' => h c' (List.mem_cons_of_mem _ hc')

/-- Chunks of the current batch are gathered. -/
theorem foldl_progress_of_eq {ids : List ChunkId} {b : ℕ} (h : ∀ c ∈ ids, c.batch = b) :
    ∀ got, ids.foldl t.progress (.collecting b got) = .collecting b (ids.reverse ++ got) := by
  induction ids with
  | nil => exact fun got => rfl
  | cons c ids ih =>
      intro got
      have hc := h c List.mem_cons_self
      rw [List.foldl_cons, progress, if_neg hc.not_lt, if_pos hc,
        ih fun c' hc' => h c' (List.mem_cons_of_mem _ hc'), List.reverse_cons, List.append_assoc,
        List.singleton_append]

/-- All packets of a batch are enough. -/
theorem enough_batchIds {b : ℕ} {got : List ChunkId} (h : t.batchIds b ⊆ got) :
    t.Enough b got := by
  have hlen := t.length_batchIds b
  have hcard := List.toFinset_card_of_nodup (t.nodup_batchIds b)
  have hsub : (t.batchIds b).toFinset.card ≤ got.toFinset.card :=
    Finset.card_le_card fun c hc => List.mem_toFinset.mpr (h (List.mem_toFinset.mp hc))
  rw [Enough]
  omega

/-- All chunks of the first `n` batches, from any point of a transfer of the file. -/
theorem exists_progress_range (b : ℕ) (got : List ChunkId) {n : ℕ} (hn : n ≤ t.batchCount) :
    ∃ b' got', ((List.range n).flatMap t.batchIds).foldl t.progress (.collecting b got) =
        .collecting b' got' ∧
      (n ≤ b → b' = b) ∧ (b < n → b' + 1 = n ∧ t.Enough b' got') := by
  induction n with
  | zero => exact ⟨b, got, rfl, fun _ => rfl, fun h => absurd h (Nat.not_lt_zero b)⟩
  | succ n ih =>
      obtain ⟨b', got', hs, hbefore, hpast⟩ := ih (by omega)
      have hbatch : ∀ c ∈ t.batchIds n, c.batch = n := fun c hc =>
        ((t.mem_batchIds (by omega)).mp hc).2
      rw [List.range_succ, List.flatMap_append, List.foldl_append, hs, List.flatMap_singleton]
      rcases Nat.lt_trichotomy n b with hlt | heq | hgt
      · rw [hbefore hlt.le, foldl_progress_of_lt fun c hc => by rw [hbatch c hc]; exact hlt]
        exact ⟨b, got', rfl, fun _ => rfl, fun h => by omega⟩
      · rw [hbefore heq.le, foldl_progress_of_eq fun c hc => by rw [hbatch c hc, heq]]
        refine ⟨b, (t.batchIds n).reverse ++ got', rfl, fun _ => rfl, fun _ => ⟨by omega, ?_⟩⟩
        rw [← heq]
        exact enough_batchIds fun c hc => List.mem_append_left _ (List.mem_reverse.mpr hc)
      · obtain ⟨hn', henough⟩ := hpast hgt
        -- the first packet of the batch ends the one before
        have hne : t.batchIds n ≠ [] := List.length_pos_iff.mp (by
          rw [t.length_batchIds, batchParityChunks]
          omega)
        obtain ⟨c, ids, hids⟩ := List.exists_cons_of_ne_nil hne
        have hc : c.batch = n := hbatch c (by rw [hids]; exact List.mem_cons_self)
        have hstep : t.progress (.collecting b' got') c = .collecting n [c] := by
          rw [progress, if_neg (by omega), if_neg (by omega), if_pos ⟨by omega, henough⟩, hc]
        refine ⟨n, (t.batchIds n).reverse, ?_, fun h => by omega, fun _ => ⟨rfl, ?_⟩⟩
        · rw [hids, List.foldl_cons, hstep, foldl_progress_of_eq, List.reverse_cons]
          exact fun c' hc' => hbatch c' (by rw [hids]; exact List.mem_cons_of_mem _ hc')
        · exact enough_batchIds fun c' hc' => List.mem_reverse.mpr hc'

/-- **All chunks of the file** lead to its last batch, from any point of a transfer of it. -/
theorem exists_progress_allIds (b : ℕ) (got : List ChunkId) :
    ∃ b' got', t.allIds.foldl t.progress (.collecting b got) = .collecting b' got' ∧
      t.Enough b' got' ∧ t.batchCount ≤ b' + 1 := by
  obtain ⟨b', got', hs, hbefore, hpast⟩ := exists_progress_range b got (le_refl t.batchCount)
  refine ⟨b', got', hs, ?_⟩
  rcases Nat.lt_or_ge b t.batchCount with hlt | hge
  · obtain ⟨hb', henough⟩ := hpast hlt
    exact ⟨henough, hb'.ge⟩
  · have hlast : t.batchCount ≤ b' := by rwa [hbefore hge]
    exact ⟨enough_of_le hlast, by omega⟩

end Transfer

end DataDiode
