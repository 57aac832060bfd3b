import DataDiode.SendFiles
import DataDiode.SourceTree

/-!
# Watching a Directory

`main` of the sender scans the source directory again and again, for ever. Between two scans others
put files into the directory; what a scan finds, it sends under the path below the directory and
removes. If nobody touches a file while it is being sent, and the socket takes everything, then
every file that is put there is sent, once, in the version that was put there last before a scan;
and nothing that could be sent is left behind. A file whose path is not text stays where it is.

## Main results

* `sendFile_rests`: a file at rest is sent in full, and removed.
* `foldl_sendListed`: one scan.
* `watch_spec`, `watch_sends`: any number of scans.
* `lists_of_forall`: listings of what was put there since the last scan show what is there.
-/

namespace DataDiode

open UnixPath (Path)

/-! ### Files at rest -/

namespace Source

/-- A file at rest: it is there, complete, and nobody touches it. -/
structure Rests (s : Source) (c : Bytes) : Prop where
  valid : s.Valid
  present : s.present = some c
  schedule : s.schedule = []

/-- No file is there, and nobody is about to put one there. -/
structure Gone (s : Source) : Prop where
  current : s.current = none
  schedule : s.schedule = []

variable {s : Source} {c : Bytes}

/-- With nobody at the file, a call goes through. -/
theorem turn_of_schedule (h : s.schedule = []) : s.turn = (.ok, s) := by rw [turn, h]

/-- The version of a file at rest. -/
theorem Rests.exists_current (h : s.Rests c) : ∃ i, s.current = some i ∧ s.contentsOf i = c :=
  Option.map_eq_some_iff.mp h.present

/-- The length of a file at rest is found. -/
theorem Rests.metadataLen (h : s.Rests c) : s.metadataLen = (some c.length, s) := by
  obtain ⟨i, hi, hc⟩ := h.exists_current
  rw [Source.metadataLen, turn_of_schedule h.schedule]
  simp [hi, hc]

/-- What is gone has no metadata. -/
theorem Gone.metadataLen (h : s.Gone) : s.metadataLen = (none, s) := by
  rw [Source.metadataLen, turn_of_schedule h.schedule]
  simp [h.current]

/-- What is gone is not there. -/
theorem Gone.present (h : s.Gone) : s.present = none := by
  rw [Source.present, h.current, Option.map_none]

/-- A file at rest is stable. -/
theorem Rests.isFileStable (h : s.Rests c) : isFileStable s = (true, s) := by
  rw [DataDiode.isFileStable, h.metadataLen]
  simp [h.metadataLen]

/-- A file is put there, in place of the one that may be there. -/
theorem rests_replace (h : s.schedule = []) (c : Bytes) : (s.act (.replace c)).Rests c where
  valid := by
    intro i hi
    obtain rfl := Option.some.inj hi
    simp [act]
  present := by simp [Source.present, act, contentsOf]
  schedule := h

end Source

/-- **A file at rest** is sent in full, and removed. -/
theorem sendFile_rests (libs : Libs) (t : Transfer) {src : Source} (h : src.Rests t.contents)
    (sent : List Bytes) : ∃ src' : Source, src'.Gone ∧
      sendFile libs ⟨[], sent⟩ src t.path = (true, ⟨[], sent ++ t.emitted libs⟩, src') := by
  obtain ⟨i, hi, -⟩ := h.exists_current
  have hkeeps : src.Keeps t.contents i := .of_current h.valid h.present hi
  have hopen : src.openFile = (some i, src) := by
    rw [Source.openFile, Source.turn_of_schedule h.schedule]
    simp [hi]
  have hstart : sendInOrder (List.replicate controlResend (t.startPacket libs)) ⟨[], sent⟩ =
      (true, ⟨[], sent ++ List.replicate controlResend (t.startPacket libs)⟩) :=
    sendInOrder_ideal _ _
  rcases hloop : SendLoop.loop libs (t.pathHash libs)
    ⟨⟨[], sent ++ List.replicate controlResend (t.startPacket libs)⟩, src, .new i, 0, 0, []⟩
    with ⟨ok, st⟩
  obtain ⟨used, hused, himp⟩ := loop_opened hkeeps h.metadataLen hstart hopen hloop
  rw [h.schedule, eq_comm, List.append_eq_nil_iff] at hused
  obtain ⟨⟨j, hkept⟩, hdone, hfailed⟩ := himp (by simp [hused.1, Steady])
  obtain ⟨inode, hinode, -⟩ := Option.map_eq_some_iff.mp hkept.present
  have hok : ok = true := by
    by_contra hfalse
    obtain ⟨k, -, ok', hsent, hfault⟩ := hfailed (by simpa using hfalse)
    rw [sendInOrder_ideal, Prod.mk.injEq] at hsent
    exact hfault hsent.1.symm (by simp [Source.Faultless, h.schedule])
  subst hok
  -- the last batch, and the END packets
  obtain ⟨hchunks, hcount, hsrc⟩ := (hdone rfl).flush rfl
  rw [sendInOrder_ideal, Prod.mk.injEq] at hchunks
  refine ⟨{ st.src with current := none }, ⟨rfl, hused.2⟩, ?_⟩
  rw [sendFile, h.isFileStable]
  dsimp only
  rw [sendFileChunks, h.metadataLen]
  dsimp only
  rw [sendStartPacket, sendWithRetry_eq (isParityPacket_startPacket ..)]
  rw [show startPacket libs t.contents.length t.path batchParityChunks = t.startPacket libs
    from rfl, hstart]
  dsimp only
  rw [hopen]
  dsimp only
  rw [← Transfer.pathHash, hloop]
  dsimp only
  rw [← hchunks.2, hcount, hsrc, sendEndPacket, sendWithRetry_eq (isParityPacket_endPacket ..),
    sendInOrder_ideal]
  dsimp only
  rw [Source.removeFile, Source.turn_of_schedule hused.2, t.emitted_eq]
  simp [hinode, Transfer.endPacket]

/-- A file that is gone is passed over. -/
theorem sendFile_gone (libs : Libs) (net : Net) {src : Source} (h : src.Gone)
    (relPath : Str) : sendFile libs net src relPath = (false, net, src) := by
  rw [sendFile, isFileStable, h.metadataLen]

/-! ### One scan -/

/-- Every file is at rest or gone. -/
def Settled (srcs : Path → Source) : Prop :=
  ∀ full, (srcs full).Gone ∨ ∃ c, (srcs full).Rests c

/-- The transfer of a file that is there, if its path below the directory is text. -/
def transferOf (sourceDir : Path) (srcs : Path → Source) (full : Path) : Option Transfer :=
  (relPathOf sourceDir full).bind fun relPath => (srcs full).present.map (Transfer.mk relPath)

section Scan

variable (libs : Libs) (sourceDir : Path)

/-- One file of a scan. -/
theorem sendListed_settled {srcs : Path → Source} (h : Settled srcs) (sent : List Bytes)
    (full : Path) : ∃ srcs', Settled srcs' ∧
      sendListed libs sourceDir (⟨[], sent⟩, srcs) full =
        (⟨[], sent ++ (transferOf sourceDir srcs full).toList.flatMap (Transfer.emitted libs)⟩,
          srcs') ∧
      (∀ other, other ≠ full → srcs' other = srcs other) ∧
      if (relPathOf sourceDir full).isSome then (srcs' full).Gone else srcs' full = srcs full := by
  rw [sendListed, transferOf]
  cases hrel : relPathOf sourceDir full with
  | none => exact ⟨srcs, h, by simp, fun _ _ => rfl, by simp⟩
  | some relPath =>
      rcases h full with hgone | ⟨c, hrests⟩
      · refine ⟨srcs, h, ?_, fun _ _ => rfl, by simpa using hgone⟩
        simp [sendFile_gone libs _ hgone, hgone.present]
      · obtain ⟨src', hgone, hsend⟩ := sendFile_rests libs ⟨relPath, c⟩ hrests sent
        refine ⟨Function.update srcs full src', fun other => ?_, ?_, fun other hother => ?_, ?_⟩
        · by_cases hother : other = full
          · rw [hother, Function.update_self]
            exact Or.inl hgone
          · rw [Function.update_of_ne hother]
            exact h other
        · dsimp only at hsend ⊢
          rw [hsend]
          simp [hrests.present]
        · exact Function.update_of_ne hother _ _
        · simpa using hgone

/-- **One scan** over files at rest: those that are there and have a text for a path are sent, in
the order of the walk, and removed. -/
theorem foldl_sendListed {fulls : List Path} (hnodup : fulls.Nodup) {srcs : Path → Source}
    (h : Settled srcs) (sent : List Bytes) : ∃ srcs', Settled srcs' ∧
      fulls.foldl (sendListed libs sourceDir) (⟨[], sent⟩, srcs) =
        (⟨[], sent ++ (fulls.filterMap (transferOf sourceDir srcs)).flatMap
          (Transfer.emitted libs)⟩, srcs') ∧
      ∀ full, if full ∈ fulls ∧ (relPathOf sourceDir full).isSome then (srcs' full).Gone
        else srcs' full = srcs full := by
  induction fulls generalizing srcs sent with
  | nil => exact ⟨srcs, h, by simp, by simp⟩
  | cons full fulls ih =>
      obtain ⟨hnew, hnodup⟩ := List.nodup_cons.mp hnodup
      obtain ⟨srcs₁, hsettled, hstep, hothers, hfull⟩ :=
        sendListed_settled libs sourceDir h sent full
      obtain ⟨srcs', hsettled', hrun, hafter⟩ := ih hnodup hsettled
        (sent ++ (transferOf sourceDir srcs full).toList.flatMap (Transfer.emitted libs))
      have hsame : fulls.filterMap (transferOf sourceDir srcs₁) =
          fulls.filterMap (transferOf sourceDir srcs) := by
        refine List.filterMap_congr fun other hother => ?_
        rw [transferOf, transferOf, hothers other (by rintro rfl; exact hnew hother)]
      refine ⟨srcs', hsettled', ?_, fun other => ?_⟩
      · rw [List.foldl_cons, hstep, hrun, hsame, List.append_assoc, ← List.flatMap_append]
        congr 3
        rw [List.filterMap_cons]
        cases transferOf sourceDir srcs full <;> rfl
      · have hother := hafter other
        by_cases heq : other = full
        · subst heq
          rw [if_neg (by simp [hnew])] at hother
          rw [hother]
          simpa using hfull
        · rw [hothers other heq] at hother
          simpa [heq] using hother

end Scan

/-- Different names lead to different paths. -/
theorem fullPath_inj (dir : Path) {ns ms : List FileName} (hns : ns ≠ []) (hms : ms ≠ [])
    (h : fullPath dir ns = fullPath dir ms) : ns = ms := by
  have hnames : ∀ (l : List FileName), ∀ n ∈ l.map FileName.name, UnixPath.IsName n := by
    intro l n hn
    obtain ⟨name, -, rfl⟩ := List.mem_map.mp hn
    exact name.isName
  have hstrip := UnixPath.stripPrefix_foldl_join dir (by simpa using hns) (hnames ns)
  have hstrip' := UnixPath.stripPrefix_foldl_join dir (by simpa using hms) (hnames ms)
  rw [← fullPath] at hstrip hstrip'
  rw [h, hstrip', Option.some.injEq] at hstrip
  have hslash : ∀ (l : List FileName), ∀ n ∈ l.map FileName.name, '/' ∉ n :=
    fun l n hn => (hnames l n hn).noSlash
  have hsplit := congrArg (List.splitOn '/') hstrip
  rw [List.splitOn_intercalate '/' (hslash ms) (by simpa using hms),
    List.splitOn_intercalate '/' (hslash ns) (by simpa using hns)] at hsplit
  have hbytes := congrArg (List.map osBytes) hsplit
  simp only [List.map_map] at hbytes
  have hname : osBytes ∘ FileName.name = FileName.bytes := by
    funext n
    exact osBytes_osPath n.bytes
  rw [hname] at hbytes
  exact (List.map_injective_iff.mpr FileName.bytes_injective hbytes).symm

/-- **The walk finds every file once.** -/
theorem walkFiles_nodup (dir : Path) {listing : Option (List Entry)}
    (h : DistinctNames listing) : (walkFiles dir listing).Nodup := by
  rw [walkFiles_eq]
  have hbranches := walkNames_pairwise listing h
  refine List.pairwise_map.mpr (hbranches.imp_of_mem fun hns hms hne heq => ?_)
  have hsame := fullPath_inj dir (ne_nil_of_mem_walkNames hns) (ne_nil_of_mem_walkNames hms) heq
  rw [hsame] at hne
  exact hne.1 List.prefix_rfl

/-! ### Scan after scan -/

/-- A turn of the loop: the files that others put into the directory since the last scan, in this
order, and the listing that the scan then finds. -/
structure Turn where
  deposits : List (Path × Bytes)
  listing : Option (List Entry)

/-- A file is put in its place. -/
def deposit (srcs : Path → Source) (d : Path × Bytes) : Path → Source :=
  Function.update srcs d.1 ((srcs d.1).act (.replace d.2))

/-- A turn: what others do, and the scan. -/
def scan (libs : Libs) (sourceDir : Path) (st : Net × (Path → Source)) (turn : Turn) :
    Net × (Path → Source) :=
  sendFiles libs sourceDir turn.listing (st.1, turn.deposits.foldl deposit st.2)

/-- The loop of `main`, for some turns. -/
def watch (libs : Libs) (sourceDir : Path) (turns : List Turn) (st : Net × (Path → Source)) :
    Net × (Path → Source) :=
  turns.foldl (scan libs sourceDir) st

/-- Every scan finds in the directory what is there: every file under its name, and nothing
else. -/
def Lists (libs : Libs) (sourceDir : Path) : List Turn → Net × (Path → Source) → Prop
  | [], _ => True
  | turn :: turns, st =>
      DistinctNames turn.listing ∧
        (∀ full, full ∈ walkFiles sourceDir turn.listing ↔
          (turn.deposits.foldl deposit st.2 full).current.isSome) ∧
        Lists libs sourceDir turns (scan libs sourceDir st turn)

namespace Turn

variable (turn : Turn) (sourceDir : Path)

/-- The version of a file that was put there last. -/
def lastDeposit (full : Path) : Option Bytes :=
  (turn.deposits.reverse.find? fun d => d.1 = full).map Prod.snd

/-- The transfers of a turn: the files deposited since the last one. -/
def transfers : List Transfer :=
  (walkFiles sourceDir turn.listing).filterMap fun full =>
    (relPathOf sourceDir full).bind fun relPath => (turn.lastDeposit full).map (Transfer.mk relPath)

end Turn

/-- What others do leaves files at rest, those that they put there last. -/
theorem foldl_deposit {srcs : Path → Source} (h : Settled srcs) (turn : Turn) :
    Settled (turn.deposits.foldl deposit srcs) ∧
      ∀ full, (turn.deposits.foldl deposit srcs full).present =
        (turn.lastDeposit full).or (srcs full).present := by
  obtain ⟨deposits, listing⟩ := turn
  simp only [Turn.lastDeposit]
  induction deposits using List.reverseRecOn with
  | nil => exact ⟨h, fun full => rfl⟩
  | append_singleton deposits d ih =>
      obtain ⟨hsettled, hpresent⟩ := ih
      have hput : ((deposits.foldl deposit srcs d.1).act (.replace d.2)).Rests d.2 := by
        refine Source.rests_replace ?_ d.2
        rcases hsettled d.1 with hgone | ⟨c, hrests⟩
        · exact hgone.schedule
        · exact hrests.schedule
      rw [List.foldl_append, List.foldl_cons, List.foldl_nil, List.reverse_append,
        List.reverse_singleton, List.singleton_append]
      refine ⟨fun full => ?_, fun full => ?_⟩
      · rw [deposit]
        by_cases heq : full = d.1
        · rw [heq, Function.update_self]
          exact Or.inr ⟨d.2, hput⟩
        · rw [Function.update_of_ne heq]
          exact hsettled full
      · rw [deposit]
        by_cases heq : full = d.1
        · rw [heq, Function.update_self, hput.present, List.find?_cons_of_pos (by simp)]
          rfl
        · rw [Function.update_of_ne heq, hpresent,
            List.find?_cons_of_neg (by simpa using Ne.symm heq)]

/-- Between two scans the files that could be sent are gone. -/
structure Swept (sourceDir : Path) (st : Net × (Path → Source)) : Prop where
  ideal : st.1.outcomes = []
  settled : Settled st.2
  gone : ∀ full, (relPathOf sourceDir full).isSome → (st.2 full).Gone

section Watch

variable {libs : Libs} {sourceDir : Path} {st : Net × (Path → Source)}

/-- What was put there last before a scan is sent, if its path below the directory is text. -/
theorem Swept.mem_transfers (h : Swept sourceDir st) {turn : Turn}
    (hlists : ∀ full, full ∈ walkFiles sourceDir turn.listing ↔
      (turn.deposits.foldl deposit st.2 full).current.isSome) {full : Path} {c : Bytes}
    (hlast : turn.lastDeposit full = some c) {relPath : Str}
    (hrel : relPathOf sourceDir full = some relPath) :
    ⟨relPath, c⟩ ∈ turn.transfers sourceDir := by
  have hpresent := (foldl_deposit h.settled turn).2 full
  rw [hlast, Option.some_or] at hpresent
  obtain ⟨i, hi, -⟩ := Option.map_eq_some_iff.mp hpresent
  refine List.mem_filterMap.mpr ⟨full, (hlists full).mpr (by simp [hi]), ?_⟩
  rw [hrel, hlast]
  rfl

/-- **One turn** sends what was put there since the last one, and leaves alone what is under no
text. -/
theorem Swept.scan (libs : Libs) (h : Swept sourceDir st) {turn : Turn}
    (hdistinct : DistinctNames turn.listing)
    (hlists : ∀ full, full ∈ walkFiles sourceDir turn.listing ↔
      (turn.deposits.foldl deposit st.2 full).current.isSome) :
    Swept sourceDir (scan libs sourceDir st turn) ∧
      (DataDiode.scan libs sourceDir st turn).1.sent =
        st.1.sent ++ (turn.transfers sourceDir).flatMap (Transfer.emitted libs) ∧
      ∀ full, relPathOf sourceDir full = none →
        (DataDiode.scan libs sourceDir st turn).2 full = turn.deposits.foldl deposit st.2 full := by
  obtain ⟨⟨outcomes, sent⟩, srcs⟩ := st
  obtain rfl : outcomes = [] := h.ideal
  obtain ⟨hsettled, hpresent⟩ := foldl_deposit h.settled turn
  obtain ⟨srcs', hsettled', hrun, hafter⟩ := foldl_sendListed libs sourceDir
    (walkFiles_nodup sourceDir hdistinct) hsettled sent
  have htransfers : (walkFiles sourceDir turn.listing).filterMap
      (transferOf sourceDir (turn.deposits.foldl deposit srcs)) = turn.transfers sourceDir := by
    refine List.filterMap_congr fun full _ => ?_
    rw [transferOf]
    cases hrel : relPathOf sourceDir full with
    | none => rfl
    | some relPath =>
        rw [Option.bind_some, Option.bind_some, hpresent, (h.gone full (by simp [hrel])).present,
          Option.or_none]
  have hscan : DataDiode.scan libs sourceDir (⟨[], sent⟩, srcs) turn =
      (⟨[], sent ++ (turn.transfers sourceDir).flatMap (Transfer.emitted libs)⟩, srcs') := by
    rw [DataDiode.scan, sendFiles, hrun, htransfers]
  rw [hscan]
  refine ⟨⟨rfl, hsettled', fun full hrel => ?_⟩, rfl, fun full hrel => ?_⟩
  · have hfull := hafter full
    by_cases hmem : full ∈ walkFiles sourceDir turn.listing
    · rwa [if_pos ⟨hmem, hrel⟩] at hfull
    · rw [if_neg (by simp [hmem])] at hfull
      change (srcs' full).Gone
      rw [hfull]
      refine (hsettled full).resolve_right ?_
      rintro ⟨c, hrests⟩
      obtain ⟨i, hi, -⟩ := hrests.exists_current
      exact hmem ((hlists full).mpr (by simp [hi]))
  · have hfull := hafter full
    rwa [if_neg (by simp [hrel])] at hfull

/-- **Any number of turns** send what was put there, and leave nothing behind that could be
sent. -/
theorem watch_spec (h : Swept sourceDir st) {turns : List Turn}
    (hlists : Lists libs sourceDir turns st) :
    Swept sourceDir (watch libs sourceDir turns st) ∧
      (watch libs sourceDir turns st).1.sent = st.1.sent ++
        (turns.flatMap (Turn.transfers · sourceDir)).flatMap (Transfer.emitted libs) := by
  induction turns generalizing st with
  | nil => exact ⟨h, by simp [watch]⟩
  | cons turn turns ih =>
      obtain ⟨hdistinct, hlisting, hrest⟩ := hlists
      obtain ⟨hswept, hsent, -⟩ := h.scan libs hdistinct hlisting
      obtain ⟨hswept', hsent'⟩ := ih hswept hrest
      refine ⟨hswept', ?_⟩
      rw [watch, List.foldl_cons, ← watch, hsent', hsent, List.flatMap_cons, List.flatMap_append,
        List.append_assoc]

/-- At every turn, what was put there last is sent. -/
theorem Swept.forall_mem_transfers (h : Swept sourceDir st) {turns : List Turn}
    (hlists : Lists libs sourceDir turns st) : ∀ turn ∈ turns, DistinctNames turn.listing ∧
      ∀ full relPath c, turn.lastDeposit full = some c →
        relPathOf sourceDir full = some relPath → ⟨relPath, c⟩ ∈ turn.transfers sourceDir := by
  induction turns generalizing st with
  | nil => exact fun turn hturn => absurd hturn List.not_mem_nil
  | cons turn turns ih =>
      obtain ⟨hdistinct, hlisting, hrest⟩ := hlists
      refine List.forall_mem_cons.mpr ⟨⟨hdistinct, fun full relPath c hlast hrel => ?_⟩, ?_⟩
      · exact h.mem_transfers hlisting hlast hrel
      · exact ih (h.scan libs hdistinct hlisting).1 hrest

end Watch

/-! ### The transfers of a turn -/

section Transfers

variable {turn : Turn} {sourceDir : Path} {t : Transfer}

/-- **No path of a turn is on the way to another.** -/
theorem Turn.pairwise_transfers (h : DistinctNames turn.listing) :
    (turn.transfers sourceDir).Pairwise fun t u =>
      Branches (UnixPath.names t.path) (UnixPath.names u.path) := by
  rw [Turn.transfers, walkFiles_eq, List.filterMap_map, List.pairwise_filterMap]
  refine (walkNames_pairwise turn.listing h).imp_of_mem ?_
  intro ns ms hns hms hbranches t ht u hu
  have hencode : ∀ {ns : List FileName} {t : Transfer}, ns ∈ walkNames turn.listing →
      (relPathOf sourceDir (fullPath sourceDir ns)).bind (fun relPath =>
        (turn.lastDeposit (fullPath sourceDir ns)).map (Transfer.mk relPath)) = some t →
      ns ≠ [] ∧ Utf8.encode t.path = joined ns := by
    intro ns t hns ht
    obtain ⟨relPath, hrel, ht⟩ := Option.bind_eq_some_iff.mp ht
    obtain ⟨c, -, rfl⟩ := Option.map_eq_some_iff.mp ht
    have hne := ne_nil_of_mem_walkNames hns
    rw [relPathOf_fullPath sourceDir hne] at hrel
    exact ⟨hne, Utf8.encode_of_fromUtf8 hrel⟩
  obtain ⟨hnsne, hnstext⟩ := hencode hns ht
  obtain ⟨hmsne, hmstext⟩ := hencode hms hu
  exact ⟨fun hway => hbranches.1 (names_prefix_of_text hnsne hmsne hnstext hmstext hway),
    fun hway => hbranches.2 (names_prefix_of_text hmsne hnsne hmstext hnstext hway)⟩

end Transfers

/-- **What is put into the source directory is sent.** Starting with nothing in it, for any number
of scans, if nobody touches a file while it is being sent, the socket takes everything, and every
listing shows what is there: the sender sends the packets of the transfers of its turns, one after
the other. In every turn no path is sent twice or lies on the way to another, and what was put under
a path last since the turn before is sent, if the path is text. At the end no such file is left. -/
theorem watch_sends (libs : Libs) (sourceDir : Path) {srcs : Path → Source}
    (hsrcs : ∀ full, (srcs full).Gone) {turns : List Turn}
    (hlists : Lists libs sourceDir turns (.ideal, srcs)) :
    (watch libs sourceDir turns (.ideal, srcs)).1.sent =
        (turns.flatMap (Turn.transfers · sourceDir)).flatMap (Transfer.emitted libs) ∧
      (∀ turn ∈ turns, (turn.transfers sourceDir).Pairwise (fun t u =>
          Branches (UnixPath.names t.path) (UnixPath.names u.path)) ∧
        ∀ full relPath c, turn.lastDeposit full = some c →
          relPathOf sourceDir full = some relPath → ⟨relPath, c⟩ ∈ turn.transfers sourceDir) ∧
      ∀ full, (relPathOf sourceDir full).isSome →
        ((watch libs sourceDir turns (.ideal, srcs)).2 full).current = none := by
  have hswept : Swept sourceDir (.ideal, srcs) :=
    ⟨rfl, fun full => Or.inl (hsrcs full), fun full _ => hsrcs full⟩
  obtain ⟨hswept', hsent⟩ := watch_spec hswept hlists
  refine ⟨hsent, fun turn hturn => ?_, fun full hrel => (hswept'.gone full hrel).current⟩
  obtain ⟨hdistinct, hmem⟩ := hswept.forall_mem_transfers hlists turn hturn
  exact ⟨Turn.pairwise_transfers hdistinct, hmem⟩

/-! ### Listings of what was put there -/

/-- A turn whose listing shows the files that were put there since the last one, all of them under
text. -/
structure Turn.ListsDeposits (turn : Turn) (sourceDir : Path) : Prop where
  distinct : DistinctNames turn.listing
  mem_iff : ∀ full,
    full ∈ walkFiles sourceDir turn.listing ↔ full ∈ turn.deposits.map Prod.fst
  text : ∀ d ∈ turn.deposits, (relPathOf sourceDir d.1).isSome

/-- What was put under a path last is there if anything was. -/
theorem Turn.isSome_lastDeposit_iff (turn : Turn) (full : Path) :
    (turn.lastDeposit full).isSome ↔ full ∈ turn.deposits.map Prod.fst := by
  rw [Turn.lastDeposit, Option.isSome_map, List.find?_isSome, List.mem_map]
  simp

section ListsDeposits

variable {libs : Libs} {sourceDir : Path} {st : Net × (Path → Source)} {turn : Turn}
  {turns : List Turn}

/-- Where nothing was, there is what a turn puts there. -/
theorem isSome_current_deposits (hswept : Swept sourceDir st) (hgone : ∀ full, (st.2 full).Gone)
    (turn : Turn) (full : Path) : (turn.deposits.foldl deposit st.2 full).current.isSome ↔
      full ∈ turn.deposits.map Prod.fst := by
  have hpresent := (foldl_deposit hswept.settled turn).2 full
  rw [(hgone full).present, Option.or_none] at hpresent
  rw [← turn.isSome_lastDeposit_iff, ← hpresent, Source.present, Option.isSome_map]

/-- **A turn that is listed leaves nothing behind.** -/
theorem Turn.ListsDeposits.scan (h : turn.ListsDeposits sourceDir) (libs : Libs)
    (hswept : Swept sourceDir st) (hgone : ∀ full, (st.2 full).Gone) :
    (∀ full, full ∈ walkFiles sourceDir turn.listing ↔
      (turn.deposits.foldl deposit st.2 full).current.isSome) ∧
    Swept sourceDir (DataDiode.scan libs sourceDir st turn) ∧
    ∀ full, ((DataDiode.scan libs sourceDir st turn).2 full).Gone := by
  have hlists : ∀ full, full ∈ walkFiles sourceDir turn.listing ↔
      (turn.deposits.foldl deposit st.2 full).current.isSome := fun full =>
    (h.mem_iff full).trans (isSome_current_deposits hswept hgone turn full).symm
  obtain ⟨hswept', -, hkept⟩ := hswept.scan libs h.distinct hlists
  refine ⟨hlists, hswept', fun full => ?_⟩
  cases hrel : relPathOf sourceDir full with
  | some relPath => exact hswept'.gone full (by simp [hrel])
  | none =>
      -- under a path that is no text nothing was put
      have hnew : full ∉ turn.deposits.map Prod.fst := by
        intro hmem
        obtain ⟨d, hd, rfl⟩ := List.mem_map.mp hmem
        have htext := h.text d hd
        rw [hrel] at htext
        exact absurd htext (by simp)
      rw [hkept full hrel]
      refine ((foldl_deposit hswept.settled turn).1 full).resolve_right ?_
      rintro ⟨c, hrests⟩
      obtain ⟨i, hi, -⟩ := hrests.exists_current
      exact hnew ((isSome_current_deposits hswept hgone turn full).mp (by simp [hi]))

/-- **Listings of what was put there** show what is there, turn after turn. -/
theorem lists_of_forall (hturns : ∀ turn ∈ turns, Turn.ListsDeposits turn sourceDir)
    (hswept : Swept sourceDir st) (hgone : ∀ full, (st.2 full).Gone) :
    Lists libs sourceDir turns st := by
  induction turns generalizing st with
  | nil => trivial
  | cons turn turns ih =>
      obtain ⟨hturn, hturns⟩ := List.forall_mem_cons.mp hturns
      obtain ⟨hlists, hswept', hgone'⟩ := hturn.scan libs hswept hgone
      exact ⟨hturn.distinct, hlists, ih hturns hswept' hgone'⟩

end ListsDeposits

/-! ### Three turns -/

/-- The names of one letter. -/
def letterA : FileName := ⟨[97], by decide, by decide, by decide, by decide, by decide⟩

/-- Another name. -/
def letterB : FileName := ⟨[98], by decide, by decide, by decide, by decide, by decide⟩

/-- A file in a directory. -/
def fileEntry (name : FileName) : Entry := .mk name (some false) false true none

/-- Two versions of `a` and an empty file `b` are put into the directory `s`; after a scan, a longer
version of `a`; and then nothing more. -/
def versionTurns : List Turn :=
  [{ deposits := [(fullPath ['s'] [letterA], [1]), (fullPath ['s'] [letterB], []),
        (fullPath ['s'] [letterA], [42])]
     listing := some [fileEntry letterA, fileEntry letterB] },
   { deposits := [(fullPath ['s'] [letterA], List.replicate (chunkSize + 1) 7)]
     listing := some [fileEntry letterA] },
   { deposits := [], listing := some [] }]

/-- Every scan lists what was put there. -/
theorem versionTurns_listsDeposits :
    ∀ turn ∈ versionTurns, Turn.ListsDeposits turn ['s'] := by
  refine List.forall_mem_cons.mpr ⟨?_, List.forall_mem_cons.mpr ⟨?_,
    List.forall_mem_singleton.mpr ?_⟩⟩
  · refine ⟨?_, fun full => ?_, ?_⟩
    · simp [DistinctNames, DistinctBelow, DistinctIn, fileEntry, Entry.name, letterA, letterB]
    · have hwalk : walkFiles ['s'] (some [fileEntry letterA, fileEntry letterB]) =
          [fullPath ['s'] [letterA], fullPath ['s'] [letterB]] := rfl
      rw [hwalk]
      simp only [List.map_cons, List.map_nil, List.mem_cons, List.not_mem_nil]
      tauto
    · have hall : ∀ d ∈ [letterA, letterB],
          (relPathOf ['s'] (fullPath ['s'] [d])).isSome = true := by decide
      exact List.forall_mem_cons.mpr ⟨hall letterA (by simp), List.forall_mem_cons.mpr
        ⟨hall letterB (by simp), List.forall_mem_singleton.mpr (hall letterA (by simp))⟩⟩
  · refine ⟨?_, fun full => ?_, ?_⟩
    · simp [DistinctNames, DistinctBelow, DistinctIn, fileEntry]
    · have hwalk : walkFiles ['s'] (some [fileEntry letterA]) = [fullPath ['s'] [letterA]] := rfl
      rw [hwalk]
      rfl
    · exact List.forall_mem_singleton.mpr (by decide)
  · exact ⟨⟨List.nodup_nil, trivial⟩, fun full => Iff.rfl, fun d hd => absurd hd List.not_mem_nil⟩

/-- The three scans list what is there. -/
theorem versionTurns_lists (libs : Libs) :
    Lists libs ['s'] versionTurns (.ideal, fun _ => ⟨[], none, []⟩) :=
  lists_of_forall versionTurns_listsDeposits
    ⟨rfl, fun _ => Or.inl ⟨rfl, rfl⟩, fun _ _ => ⟨rfl, rfl⟩⟩ fun _ => ⟨rfl, rfl⟩

/-- What is sent of them: of every file the version that a scan finds. -/
theorem transfers_versionTurns : versionTurns.flatMap (Turn.transfers · ['s']) =
    [⟨['a'], [42]⟩, ⟨['b'], []⟩, ⟨['a'], List.replicate (chunkSize + 1) 7⟩] := by
  rfl

/-- Three scans send the versions that they find. -/
theorem watch_sends_versions :
    (watch referenceLibs ['s'] versionTurns (.ideal, fun _ => ⟨[], none, []⟩)).1.sent =
      [(⟨['a'], [42]⟩ : Transfer), ⟨['b'], []⟩,
        ⟨['a'], List.replicate (chunkSize + 1) 7⟩].flatMap (Transfer.emitted referenceLibs) := by
  rw [← transfers_versionTurns]
  exact (watch_sends referenceLibs ['s'] (fun _ => ⟨rfl, rfl⟩) (versionTurns_lists _)).1

end DataDiode
