import DataDiode.Invariant
import DataDiode.Sender
import DataDiode.Spaced

/-!
# The Display

The receiver shows its counters on a display of two rows of sixteen characters, which hangs on a
microcontroller at the other end of a serial line. `Display::update` writes a carriage return, the
first row, a line feed and the second row. The sketch prints every other byte where the cursor
stands, a line feed makes it change the row, and a carriage return takes it back to the first row.

The serial buffer of the microcontroller is small, and bytes may get lost. An update that gets
through sets everything right again, whatever came before it. So that the buffer is not flooded,
updates leave some time between each other, but for those at the start and the end of a transfer.

The display driver and the text of floating-point numbers are parameters.

## Main results

* `Sketch.receive_update`: what an update that gets through leaves on the display.
* `display_follows`: every update that gets through shows the counters behind a turn of the worker,
  and behind every START and END there is one.
* `display_spaced`: how many bytes are written in a window of time.
-/

namespace DataDiode

/-! ### The microcontroller -/

/-- Columns of the display. -/
def lcdCols : ℕ := 16

/-- A display driver, as far as the sketch uses it: a character is printed at the cursor, which
moves on to the next column. What happens behind the last column is left open. -/
structure Lcd where
  Screen : Type
  setCursor : ℕ → ℕ → Screen → Screen
  print : UInt8 → Screen → Screen
  /-- the character in a row and a column -/
  cell : Screen → ℕ → ℕ → UInt8
  /-- the row and the column of the cursor -/
  cursor : Screen → ℕ × ℕ
  cell_setCursor : ∀ col row s, cell (setCursor col row s) = cell s
  cursor_setCursor : ∀ col row s, col < lcdCols → row < 2 →
    cursor (setCursor col row s) = (row, col)
  cell_print : ∀ b s row col, cursor s = (row, col) → col < lcdCols → ∀ r c,
    cell (print b s) r c = if r = row ∧ c = col then b else cell s r c
  cursor_print : ∀ b s row col, cursor s = (row, col) → col < lcdCols →
    cursor (print b s) = (row, col + 1)

/-- A plain display: what it shows is kept cell by cell. -/
def plainLcd : Lcd where
  Screen := (ℕ × ℕ) × (ℕ → ℕ → UInt8)
  setCursor col row s := ((row, col), s.2)
  print b s := ((s.1.1, s.1.2 + 1), fun r c => if r = s.1.1 ∧ c = s.1.2 then b else s.2 r c)
  cell s := s.2
  cursor s := s.1
  cell_setCursor _ _ _ := rfl
  cursor_setCursor _ _ _ _ _ := rfl
  cell_print b s row col hcursor _ r c := by rw [hcursor]
  cursor_print b s row col hcursor _ := by rw [hcursor]

instance : Inhabited Lcd := ⟨plainLcd⟩

/-- The sketch: the row it believes to be in, and the display. -/
structure Sketch (lcd : Lcd) where
  line : ℕ
  screen : lcd.Screen

namespace Sketch

variable {lcd : Lcd}

/-- The other row, from its start. -/
def toggleLine (sk : Sketch lcd) : Sketch lcd :=
  let line := if sk.line = 0 then 1 else 0
  ⟨line, lcd.setCursor 0 line sk.screen⟩

/-- One turn of the loop, on a byte from the serial line. -/
def receive (sk : Sketch lcd) (inChar : UInt8) : Sketch lcd :=
  if inChar = 10 then sk.toggleLine
  else if inChar = 13 then ⟨0, lcd.setCursor 0 0 sk.screen⟩
  else { sk with screen := lcd.print inChar sk.screen }

end Sketch

/-- A text without line feeds and carriage returns. -/
def Printable (text : Bytes) : Prop := ∀ b ∈ text, b ≠ 10 ∧ b ≠ 13

instance (text : Bytes) : Decidable (Printable text) := List.decidableBAll _ _

/-- The rows of a display. -/
def Shows (lcd : Lcd) (screen : lcd.Screen) (line1 line2 : Bytes) : Prop :=
  ∀ c < lcdCols, lcd.cell screen 0 c = line1.getD c 32 ∧ lcd.cell screen 1 c = line2.getD c 32

namespace Sketch

variable {lcd : Lcd}

/-- A text is printed from the cursor on, and nothing else changes. -/
theorem foldl_receive_text {text : Bytes} (htext : Printable text) (sk : Sketch lcd) {row col : ℕ}
    (hcursor : lcd.cursor sk.screen = (row, col)) (hfits : col + text.length ≤ lcdCols) :
    (text.foldl receive sk).line = sk.line ∧
      ∀ r c, lcd.cell (text.foldl receive sk).screen r c =
        if r = row ∧ col ≤ c ∧ c < col + text.length then text.getD (c - col) 32
        else lcd.cell sk.screen r c := by
  induction text generalizing sk col with
  | nil =>
      refine ⟨rfl, fun r c => ?_⟩
      rw [List.foldl_nil, if_neg]
      rintro ⟨-, hle, hlt⟩
      rw [List.length_nil] at hlt
      omega
  | cons b text ih =>
      rw [List.length_cons] at hfits
      obtain ⟨hfeed, hreturn⟩ := htext b List.mem_cons_self
      have hstep : sk.receive b = { sk with screen := lcd.print b sk.screen } := by
        rw [receive, if_neg hfeed, if_neg hreturn]
      have hcol : col < lcdCols := by omega
      obtain ⟨hline, hcells⟩ := ih (fun x hx => htext x (List.mem_cons_of_mem b hx))
        { sk with screen := lcd.print b sk.screen }
        (lcd.cursor_print b sk.screen row col hcursor hcol) (by omega)
      rw [List.foldl_cons, hstep]
      refine ⟨hline, fun r c => ?_⟩
      rw [hcells, lcd.cell_print b sk.screen row col hcursor hcol, List.length_cons]
      by_cases hr : r = row
      · by_cases hc : c = col
        · rw [if_neg (by omega), if_pos ⟨hr, hc⟩, if_pos (by omega), hc, Nat.sub_self]
          rfl
        · by_cases hin : col + 1 ≤ c ∧ c < col + 1 + text.length
          · rw [if_pos ⟨hr, hin⟩, if_pos ⟨hr, by omega, by omega⟩,
              show c - col = c - (col + 1) + 1 by omega]
            rfl
          · rw [if_neg (by tauto), if_neg (by tauto), if_neg (by omega)]
      · rw [if_neg (by tauto), if_neg (by tauto), if_neg (by tauto)]

/-- **An update that gets through** shows its two rows, whatever the sketch and the display were
like. -/
theorem receive_update (sk : Sketch lcd) {line1 line2 : Bytes} (h1 : Printable line1)
    (h2 : Printable line2) (hlen1 : line1.length = lcdCols) (hlen2 : line2.length = lcdCols) :
    ((13 :: line1 ++ 10 :: line2).foldl receive sk).line = 1 ∧
      Shows lcd ((13 :: line1 ++ 10 :: line2).foldl receive sk).screen line1 line2 := by
  have hreturn : sk.receive 13 = ⟨0, lcd.setCursor 0 0 sk.screen⟩ := rfl
  obtain ⟨hline, hcells⟩ := foldl_receive_text h1 ⟨0, lcd.setCursor 0 0 sk.screen⟩
    (lcd.cursor_setCursor 0 0 sk.screen (by decide) (by decide)) (by omega)
  rw [List.foldl_append, List.foldl_cons, List.foldl_cons, hreturn]
  generalize line1.foldl receive ⟨0, lcd.setCursor 0 0 sk.screen⟩ = sk₁ at hline hcells ⊢
  have hfeed : sk₁.receive 10 = ⟨1, lcd.setCursor 0 1 sk₁.screen⟩ := by
    rw [receive, if_pos rfl, toggleLine, if_pos hline]
  obtain ⟨hline', hcells'⟩ := foldl_receive_text h2 ⟨1, lcd.setCursor 0 1 sk₁.screen⟩
    (lcd.cursor_setCursor 0 1 sk₁.screen (by decide) (by decide)) (by omega)
  rw [hfeed]
  refine ⟨hline', fun c hc => ⟨?_, ?_⟩⟩
  · rw [hcells', if_neg (by omega), lcd.cell_setCursor, hcells,
      if_pos ⟨rfl, Nat.zero_le _, by omega⟩]
    rfl
  · rw [hcells', if_pos ⟨rfl, Nat.zero_le _, by omega⟩]
    rfl

end Sketch

/-! ### The rows -/

/-- A string of ASCII characters. -/
def ascii (s : String) : Bytes := s.toList.map fun c => UInt8.ofNat c.toNat

/-- A text at the right end of a field: `{:>w}`. -/
def padLeft (w : ℕ) (text : Bytes) : Bytes := List.replicate (w - text.length) 32 ++ text

/-- A text cut or filled up to the width of the display: `{:<16.16}`. -/
def fitted (text : Bytes) : Bytes :=
  text.take lcdCols ++ List.replicate (lcdCols - text.length) 32

/-- What floating-point arithmetic makes of the counters. -/
structure FloatText where
  /-- `{:>5.1}` of the transferred bytes, divided by 1024.0 twice -/
  megabytes : ℕ → Bytes
  /-- the quotient of two counters times 100.0, as an integer -/
  percent : ℕ → ℕ → ℕ
  printable : ∀ total, Printable (megabytes total)

/-- The first row: what the receiver does, and the files transferred and failed. -/
def line1 (stats : Stats) (state : ReceiveState) : Bytes :=
  fitted (ascii (if state.filePath.isSome then "Rx   " else "Wait ") ++
    padLeft 3 (Decimal.decimal stats.filesTransferred) ++ ascii "F " ++
    padLeft 2 (Decimal.decimal stats.filesFailed) ++ ascii "E")

/-- How much of the file in progress has been written. -/
def progressText (ft : FloatText) (state : ReceiveState) : Bytes :=
  if state.filePath.isSome then
    ascii " " ++ padLeft 3 (Decimal.decimal (if state.fileSize = 0 then 100
      else ft.percent state.bytesTransferred state.fileSize)) ++ ascii "%"
  else ascii "     "

/-- The second row: the bytes transferred, and the progress. -/
def line2 (ft : FloatText) (stats : Stats) (state : ReceiveState) : Bytes :=
  fitted (ft.megabytes stats.totalTransferred ++ ascii "MB" ++ progressText ft state)

/-- One text after the other. -/
theorem Printable.append {text text' : Bytes} (h : Printable text) (h' : Printable text') :
    Printable (text ++ text') :=
  fun b hb => (List.mem_append.mp hb).elim (h b) (h' b)

/-- Blanks may be printed. -/
theorem printable_replicate (n : ℕ) : Printable (List.replicate n 32) :=
  fun b hb => List.eq_of_mem_replicate hb ▸ by decide

/-- A text in a field may be printed. -/
theorem printable_padLeft {w : ℕ} {text : Bytes} (h : Printable text) :
    Printable (padLeft w text) :=
  (printable_replicate _).append h

/-- A text that fills a row may be printed. -/
theorem printable_fitted {text : Bytes} (h : Printable text) : Printable (fitted text) :=
  Printable.append (fun b hb => h b (List.mem_of_mem_take hb)) (printable_replicate _)

/-- What is fitted into a row fills it. -/
theorem length_fitted (text : Bytes) : (fitted text).length = lcdCols := by
  rw [fitted, List.length_append, List.length_take, List.length_replicate]
  omega

/-- A number may be printed. -/
theorem printable_decimal (n : ℕ) : Printable (Decimal.decimal n) := by
  intro b hb
  have hdigit := List.all_eq_true.mp (Decimal.all_isDigit_decimal n) b hb
  constructor <;> rintro rfl <;> exact absurd hdigit (by decide)

/-- The first row may be printed. -/
theorem printable_line1 (stats : Stats) (state : ReceiveState) :
    Printable (line1 stats state) := by
  refine printable_fitted (((Printable.append (Printable.append ?_
    (printable_padLeft (printable_decimal _))) (by decide)).append
    (printable_padLeft (printable_decimal _))).append (by decide))
  split <;> decide

/-- The second row may be printed. -/
theorem printable_line2 (ft : FloatText) (stats : Stats) (state : ReceiveState) :
    Printable (line2 ft stats state) := by
  refine printable_fitted (((ft.printable _).append (by decide)).append ?_)
  rw [progressText]
  split
  · exact (Printable.append (by decide) (printable_padLeft (printable_decimal _))).append
      (by decide)
  · decide

/-- The counters with integer arithmetic, cut off. -/
def truncatedText : FloatText where
  megabytes total := padLeft 5 (Decimal.decimal (total / 1024 / 1024) ++ ascii "." ++
    Decimal.decimal (total * 10 / 1024 / 1024 % 10))
  percent done size := done * 100 / size
  printable _ := printable_padLeft
    (((printable_decimal _).append (by decide)).append (printable_decimal _))

/-- What an update writes. -/
def updateBytes (ft : FloatText) (stats : Stats) (state : ReceiveState) : Bytes :=
  13 :: line1 stats state ++ 10 :: line2 ft stats state

/-- The bytes of an update show the counters, whatever has got through before. -/
theorem shows_updateBytes (ft : FloatText) (stats : Stats) (state : ReceiveState) {lcd : Lcd}
    (sk : Sketch lcd) (got : Bytes) :
    Shows lcd ((got ++ updateBytes ft stats state).foldl Sketch.receive sk).screen
      (line1 stats state) (line2 ft stats state) := by
  rw [List.foldl_append]
  exact (Sketch.receive_update _ (printable_line1 stats state) (printable_line2 ft stats state)
    (length_fitted _) (length_fitted _)).2

/-- Bytes of an update. -/
def updateSize : ℕ := 2 * (lcdCols + 1)

/-- Every update is of the same size. -/
theorem length_updateBytes (ft : FloatText) (stats : Stats) (state : ReceiveState) :
    (updateBytes ft stats state).length = updateSize := by
  rw [updateBytes, List.length_append, List.length_cons, List.length_cons, line1, line2,
    length_fitted, length_fitted, updateSize]
  omega

/-! ### Updates -/

/-- Nanoseconds between updates. -/
def minInterval : ℕ := 250000000

/-- An update that was written to the serial port: when, whether it was forced, and what. Blank rows
count as a forced one. -/
structure Written where
  time : ℕ
  forced : Bool
  bytes : Bytes

/-- The display, as the receiver has it. -/
structure Display where
  lastUpdate : ℕ
  written : List Written

/-- Write an update, unless it is not forced and comes too early. -/
def Display.update (ft : FloatText) (d : Display) (now : ℕ) (stats : Stats) (state : ReceiveState)
    (force : Bool) : Display :=
  if force = false ∧ now - d.lastUpdate < minInterval then d
  else ⟨now, d.written ++ [⟨now, force, updateBytes ft stats state⟩]⟩

/-- What is written when the port has been opened: blank rows. -/
def blankBytes : Bytes := 13 :: List.replicate lcdCols 32 ++ 10 :: List.replicate lcdCols 32

/-- The display once the port has been opened: blank rows have been written, and the next update may
follow at once. -/
def Display.new (cleared opened : ℕ) : Display :=
  ⟨opened - minInterval, [⟨cleared, true, blankBytes⟩]⟩

/-- The display at the start of the receiver: the port has been opened, and the first update is
forced. -/
def Display.start (ft : FloatText) (cleared opened now : ℕ) (wk : Worker) : Display :=
  (Display.new cleared opened).update ft now wk.stats wk.state true

/-- The first two writes. -/
theorem Display.start_written (ft : FloatText) (cleared opened now : ℕ) (wk : Worker) :
    (Display.start ft cleared opened now wk).written =
      [⟨cleared, true, blankBytes⟩, ⟨now, true, updateBytes ft wk.stats wk.state⟩] := rfl

/-- START and END packets force an update. -/
def forces (packet : Packet) : Bool :=
  packet.pkgType = pkgTypeStart ∨ packet.pkgType = pkgTypeEnd

/-- A START or an END, on the wire. -/
def startsOrEnds (raw : Bytes) : Bool := (decodePacket raw).any forces

/-- One turn of the worker loop, at some time, with the display. -/
def displayTurn (env : Env) (ft : FloatText) (s : Worker × Display) (turn : Bytes × ℕ) :
    Worker × Display :=
  let wk := handlePacket env s.1 turn.1
  match decodePacket turn.1 with
  | none => (wk, s.2)
  | some packet =>
      if forces packet ∨ packet.count % 1000 = 0 then
        (wk, s.2.update ft turn.2 wk.stats wk.state (forces packet))
      else (wk, s.2)

/-- The worker loop with the display. -/
def runDisplayed (env : Env) (ft : FloatText) (s : Worker × Display) (turns : List (Bytes × ℕ)) :
    Worker × Display :=
  turns.foldl (displayTurn env ft) s

/-- A written update shows the counters behind the turn of a datagram, and is forced for a START and
an END. -/
structure ShowsTurn (ft : FloatText) (wk : Worker) (turn : Bytes × ℕ) (u : Written) : Prop where
  time : u.time = turn.2
  forced : u.forced = startsOrEnds turn.1
  bytes : u.bytes = updateBytes ft wk.stats wk.state

/-- **One turn** writes at most one update, which shows the counters behind the turn; for a START
or an END it does. -/
theorem displayTurn_written (env : Env) (ft : FloatText) (s : Worker × Display)
    (turn : Bytes × ℕ) :
    (displayTurn env ft s turn).1 = handlePacket env s.1 turn.1 ∧
      ((displayTurn env ft s turn).2 = s.2 ∧ startsOrEnds turn.1 = false ∨
        ∃ u, (displayTurn env ft s turn).2 = ⟨turn.2, s.2.written ++ [u]⟩ ∧
          ShowsTurn ft (handlePacket env s.1 turn.1) turn u ∧
          (u.forced = false → s.2.lastUpdate + minInterval ≤ turn.2)) := by
  have hpos : 0 < minInterval := by decide
  rw [displayTurn]
  split
  · rename_i hnone
    exact ⟨rfl, Or.inl ⟨rfl, by rw [startsOrEnds, hnone]; rfl⟩⟩
  rename_i packet hdecode
  have hforces : startsOrEnds turn.1 = forces packet := by
    rw [startsOrEnds, hdecode]
    rfl
  split
  · refine ⟨rfl, ?_⟩
    rw [Display.update]
    split
    · rename_i hearly
      exact Or.inl ⟨rfl, hforces.trans hearly.1⟩
    · rename_i hlate
      refine Or.inr ⟨_, rfl, ⟨rfl, hforces.symm, rfl⟩, fun hforced => ?_⟩
      have hage : ¬turn.2 - s.2.lastUpdate < minInterval := fun h => hlate ⟨hforced, h⟩
      omega
  · rename_i hnot
    refine ⟨rfl, Or.inl ⟨rfl, ?_⟩⟩
    rw [hforces]
    simpa using fun h => hnot (Or.inl h)

section Turns

variable (env : Env) (ft : FloatText)

/-- The display does not change what the worker does. -/
theorem runDisplayed_worker (s : Worker × Display) (turns : List (Bytes × ℕ)) :
    (runDisplayed env ft s turns).1 = run env s.1 (turns.map Prod.fst) := by
  induction turns generalizing s with
  | nil => rfl
  | cons turn turns ih =>
      change (runDisplayed env ft (displayTurn env ft s turn) turns).1 = _
      rw [ih, (displayTurn_written env ft s turn).1]
      rfl

/-- The last turn of a run writes nothing, and is neither a START nor an END, or it writes an
update. -/
theorem runDisplayed_concat (wk : Worker) (d : Display) (turns : List (Bytes × ℕ))
    (last : Bytes × ℕ) :
    (runDisplayed env ft (wk, d) (turns ++ [last])).2 = (runDisplayed env ft (wk, d) turns).2 ∧
        startsOrEnds last.1 = false ∨
      ∃ u, (runDisplayed env ft (wk, d) (turns ++ [last])).2 =
          ⟨last.2, (runDisplayed env ft (wk, d) turns).2.written ++ [u]⟩ ∧
        ShowsTurn ft (run env wk (turns.map Prod.fst ++ [last.1])) last u ∧
        (u.forced = false →
          (runDisplayed env ft (wk, d) turns).2.lastUpdate + minInterval ≤ last.2) := by
  have hrun : runDisplayed env ft (wk, d) (turns ++ [last]) =
      displayTurn env ft (runDisplayed env ft (wk, d) turns) last := by
    rw [runDisplayed, List.foldl_append]
    rfl
  have hturn := (displayTurn_written env ft (runDisplayed env ft (wk, d) turns) last).2
  rw [runDisplayed_worker, ← run_concat] at hturn
  rwa [hrun]

/-- A turn of a run is its last one, or a turn of the run before it. -/
theorem append_singleton_eq_split {α : Type} {xs front rest : List α} {last x : α}
    (h : xs ++ [last] = front ++ x :: rest) :
    (∃ rest', xs = front ++ x :: rest') ∨ front = xs ∧ x = last := by
  rcases List.eq_nil_or_concat rest with rfl | ⟨rest', y, rfl⟩
  · obtain ⟨hfront, hlast⟩ := List.append_inj' h rfl
    exact Or.inr ⟨hfront.symm, (List.singleton_inj.mp hlast).symm⟩
  · rw [List.concat_eq_append, ← List.cons_append, ← List.append_assoc] at h
    exact Or.inl ⟨rest', (List.append_inj' h rfl).1⟩

/-- The updates of a run show the counters behind a turn each, and behind the turn of every START
and every END there is one. -/
theorem runDisplayed_written (wk : Worker) (d : Display) (turns : List (Bytes × ℕ)) :
    ∃ more, (runDisplayed env ft (wk, d) turns).2.written = d.written ++ more ∧
      (∀ u ∈ more, ∃ front turn rest, turns = front ++ turn :: rest ∧
        ShowsTurn ft (run env wk (front.map Prod.fst ++ [turn.1])) turn u) ∧
      ∀ front turn rest, turns = front ++ turn :: rest → startsOrEnds turn.1 = true →
        ∃ u ∈ more, ShowsTurn ft (run env wk (front.map Prod.fst ++ [turn.1])) turn u := by
  induction turns using List.reverseRecOn with
  | nil =>
      refine ⟨[], by simp [runDisplayed], by simp, fun front turn rest h => ?_⟩
      exact absurd h (by simp)
  | append_singleton turns last ih =>
      obtain ⟨more, hmore, hshows, hforced⟩ := ih
      have hearlier : ∀ u ∈ more, ∃ front turn rest,
          turns ++ [last] = front ++ turn :: rest ∧
            ShowsTurn ft (run env wk (front.map Prod.fst ++ [turn.1])) turn u := by
        intro u hu
        obtain ⟨front, turn, rest, hturns, hshown⟩ := hshows u hu
        exact ⟨front, turn, rest ++ [last], by rw [hturns, List.append_assoc, List.cons_append],
          hshown⟩
      obtain ⟨hsame, hnot⟩ | ⟨u, hwritten, hshown, -⟩ := runDisplayed_concat env ft wk d turns last
      · refine ⟨more, by rw [hsame, hmore], hearlier, ?_⟩
        intro front turn rest hturns hforces
        obtain ⟨rest', hturns⟩ | ⟨-, rfl⟩ := append_singleton_eq_split hturns
        · exact hforced front turn rest' hturns hforces
        · exact absurd hnot (by rw [hforces]; decide)
      · refine ⟨more ++ [u], by rw [hwritten, hmore, List.append_assoc], ?_, ?_⟩
        · intro v hv
          obtain hv | hv := List.mem_append.mp hv
          · exact hearlier v hv
          · obtain rfl := List.mem_singleton.mp hv
            exact ⟨turns, last, [], rfl, hshown⟩
        · intro front turn rest hturns hforces
          obtain ⟨rest', hturns⟩ | ⟨rfl, rfl⟩ := append_singleton_eq_split hturns
          · obtain ⟨v, hv, hshown⟩ := hforced front turn rest' hturns hforces
            exact ⟨v, List.mem_append_left _ hv, hshown⟩
          · exact ⟨u, List.mem_append_right _ (List.mem_singleton.mpr rfl), hshown⟩

end Turns

/-- The display, at the other end of the serial line, shows the counters of a worker once some bytes
got through, whatever display it is and whatever got through before. -/
def ShowsWorker (ft : FloatText) (bytes : Bytes) (wk : Worker) : Prop :=
  ∀ (lcd : Lcd) (sk : Sketch lcd) (got : Bytes),
    Shows lcd ((got ++ bytes).foldl Sketch.receive sk).screen (line1 wk.stats wk.state)
      (line2 ft wk.stats wk.state)

/-- The bytes of an update show the worker behind its turn. -/
theorem ShowsTurn.showsWorker {ft : FloatText} {wk : Worker} {turn : Bytes × ℕ} {u : Written}
    (h : ShowsTurn ft wk turn u) : ShowsWorker ft u.bytes wk := by
  intro lcd sk got
  rw [h.bytes]
  exact shows_updateBytes ft wk.stats wk.state sk got

/-- **The display follows the worker.** Whatever arrives, and when: the worker does what it does
without a display; every update written in a run shows the counters as they were right behind the
turn of one datagram, if only the update gets through, whatever has got through before; and behind
the turn of every START and every END there is one. -/
theorem display_follows (env : Env) (ft : FloatText) (wk : Worker) (d : Display)
    (turns : List (Bytes × ℕ)) :
    (runDisplayed env ft (wk, d) turns).1 = run env wk (turns.map Prod.fst) ∧
      ∃ more, (runDisplayed env ft (wk, d) turns).2.written = d.written ++ more ∧
        (∀ u ∈ more, ∃ front turn rest, turns = front ++ turn :: rest ∧ u.time = turn.2 ∧
          ShowsWorker ft u.bytes (run env wk (front.map Prod.fst ++ [turn.1]))) ∧
        ∀ front turn rest, turns = front ++ turn :: rest → startsOrEnds turn.1 = true →
          ∃ u ∈ more, u.time = turn.2 ∧
            ShowsWorker ft u.bytes (run env wk (front.map Prod.fst ++ [turn.1])) := by
  obtain ⟨more, hmore, hshows, hforced⟩ := runDisplayed_written env ft wk d turns
  refine ⟨runDisplayed_worker env ft _ turns, more, hmore, fun u hu => ?_, ?_⟩
  · obtain ⟨front, turn, rest, hturns, hshown⟩ := hshows u hu
    exact ⟨front, turn, rest, hturns, hshown.time, hshown.showsWorker⟩
  · intro front turn rest hturns hforces
    obtain ⟨u, hu, hshown⟩ := hforced front turn rest hturns hforces
    exact ⟨u, hu, hshown.time, hshown.showsWorker⟩

/-! ### The rate of the updates -/

/-- An update that is not forced keeps its distance to all before it. -/
structure Unhurried (d : Display) : Prop where
  latest : ∀ u ∈ d.written, u.time ≤ d.lastUpdate
  apart : d.written.Pairwise fun x y => y.forced = false → x.time + minInterval ≤ y.time

/-- What is written in a run: blank rows, the first update, and updates of turns. -/
theorem mem_written_start {env : Env} {ft : FloatText} {wk : Worker} {cleared opened now : ℕ}
    {turns : List (Bytes × ℕ)} {u : Written}
    (hu : u ∈ (runDisplayed env ft (wk, .start ft cleared opened now wk) turns).2.written) :
    u = ⟨cleared, true, blankBytes⟩ ∨ u = ⟨now, true, updateBytes ft wk.stats wk.state⟩ ∨
      ∃ front turn rest, turns = front ++ turn :: rest ∧
        ShowsTurn ft (run env wk (front.map Prod.fst ++ [turn.1])) turn u := by
  obtain ⟨more, hmore, hshows, -⟩ :=
    runDisplayed_written env ft wk (.start ft cleared opened now wk) turns
  rw [hmore, Display.start_written, List.mem_append, List.mem_cons, List.mem_singleton] at hu
  obtain (rfl | rfl) | hu := hu
  · exact Or.inl rfl
  · exact Or.inr (Or.inl rfl)
  · exact Or.inr (Or.inr (hshows u hu))

/-- A run whose clock does not go back. -/
theorem runDisplayed_unhurried (env : Env) (ft : FloatText) (wk : Worker) (opened : ℕ)
    {cleared now : ℕ} {turns : List (Bytes × ℕ)}
    (hclock : (cleared :: now :: turns.map Prod.snd).Pairwise (· ≤ ·)) :
    Unhurried (runDisplayed env ft (wk, .start ft cleared opened now wk) turns).2 := by
  induction turns using List.reverseRecOn with
  | nil =>
      have hfirst : cleared ≤ now := List.rel_of_pairwise_cons hclock List.mem_cons_self
      exact ⟨List.forall_mem_cons.mpr ⟨hfirst, List.forall_mem_singleton.mpr le_rfl⟩,
        List.pairwise_pair.mpr fun hforced => absurd hforced (by simp)⟩
  | append_singleton turns last ih =>
      rw [List.map_append, ← List.cons_append, ← List.cons_append, List.pairwise_append] at hclock
      obtain ⟨hclock, -, hlast⟩ := hclock
      have hd := ih hclock
      obtain ⟨hsame, -⟩ | ⟨u, hwritten, hshown, hage⟩ :=
        runDisplayed_concat env ft wk (.start ft cleared opened now wk) turns last
      · rwa [hsame]
      -- every update so far has the time of a turn, or it is one of the first two
      have hbefore : ∀ x ∈
          (runDisplayed env ft (wk, .start ft cleared opened now wk) turns).2.written,
          x.time ≤ last.2 := by
        intro x hx
        obtain rfl | rfl | ⟨front, turn, rest, rfl, hturn⟩ := mem_written_start hx
        · exact hlast cleared List.mem_cons_self last.2 (by simp)
        · exact hlast now (by simp) last.2 (by simp)
        · rw [hturn.time]
          exact hlast turn.2 (by simp) last.2 (by simp)
      rw [hwritten]
      constructor
      · intro x hx
        obtain hx | hx := List.mem_append.mp hx
        · exact hbefore x hx
        · obtain rfl := List.mem_singleton.mp hx
          exact hshown.time.le
      · refine List.pairwise_append.mpr ⟨hd.apart, List.pairwise_singleton _ _, ?_⟩
        intro x hx y hy hforced
        obtain rfl := List.mem_singleton.mp hy
        have hx := hd.latest x hx
        have hage := hage hforced
        have htime := hshown.time
        omega

/-- The turns of a run write no more forced updates than there are STARTs and ENDs. -/
theorem countP_forced_le (env : Env) (ft : FloatText) (wk : Worker) (d : Display)
    (turns : List (Bytes × ℕ)) (during : ℕ → Bool) :
    ∃ more, (runDisplayed env ft (wk, d) turns).2.written = d.written ++ more ∧
      (more.countP fun u => during u.time ∧ u.forced) ≤
        turns.countP fun turn => during turn.2 ∧ startsOrEnds turn.1 := by
  induction turns using List.reverseRecOn with
  | nil => exact ⟨[], (List.append_nil _).symm, Nat.zero_le _⟩
  | append_singleton turns last ih =>
      obtain ⟨more, hmore, hcount⟩ := ih
      rw [List.countP_append]
      obtain ⟨hsame, -⟩ | ⟨u, hwritten, hshown, -⟩ := runDisplayed_concat env ft wk d turns last
      · exact ⟨more, by rw [hsame, hmore], Nat.le_add_right_of_le hcount⟩
      · refine ⟨more ++ [u], by rw [hwritten, hmore, List.append_assoc], ?_⟩
        rw [List.countP_append, List.countP_singleton, List.countP_singleton, hshown.time,
          hshown.forced]
        exact Nat.add_le_add_right hcount _

/-- The updates in a window of time, if those that are not forced keep their distance: the room
there is for the first one and those, and the forced ones. -/
theorem countP_window_le {first : Written} {more : List Written}
    (h : (first :: more).Pairwise fun x y => y.forced = false → x.time + minInterval ≤ y.time)
    (a T : ℕ) :
    ((first :: more).countP fun u => a ≤ u.time ∧ u.time ≤ a + T) ≤
      T / minInterval + 1 + more.countP fun u => (a ≤ u.time ∧ u.time ≤ a + T) ∧ u.forced := by
  obtain ⟨hfirst, hmore⟩ := List.pairwise_cons.mp h
  have hunforced : ∀ {u : Written}, u ∈ more.filter (fun u => !u.forced) → u.forced = false := by
    intro u hu
    simpa using List.of_mem_filter hu
  have hspaced : ((first :: more.filter fun u => !u.forced).map Written.time).Pairwise
      fun x y => x + minInterval ≤ y :=
    List.pairwise_map.mpr (List.pairwise_cons.mpr
      ⟨fun u hu => hfirst u (List.mem_of_mem_filter hu) (hunforced hu),
        (hmore.filter _).imp_of_mem fun _ hy hxy => hxy (hunforced hy)⟩)
  have hroom := Spaced.countP_window_le (by decide : 0 < minInterval) hspaced a T
  rw [List.countP_map, List.countP_cons, List.countP_filter] at hroom
  have hsplit : (more.countP fun u => a ≤ u.time ∧ u.time ≤ a + T) =
      (more.countP fun u => (a ≤ u.time ∧ u.time ≤ a + T) ∧ u.forced) +
        more.countP fun u => (a ≤ u.time ∧ u.time ≤ a + T) ∧ !u.forced := by
    rw [List.countP_eq_length_filter, List.length_eq_countP_add_countP Written.forced,
      List.countP_filter, List.countP_filter]
    congr 1 <;> exact List.countP_congr fun u _ => by simp [and_comm]
  rw [List.countP_cons, hsplit]
  simp only [Function.comp_apply, Bool.decide_and, Bool.decide_eq_true] at hroom ⊢
  omega

/-- The bytes of updates of one size in a window of time. -/
theorem length_bytes_window {us : List Written} (h : ∀ u ∈ us, u.bytes.length = updateSize)
    (a T : ℕ) :
    ((us.filter fun u => a ≤ u.time ∧ u.time ≤ a + T).flatMap Written.bytes).length =
      updateSize * us.countP fun u => a ≤ u.time ∧ u.time ≤ a + T := by
  have hbytes : ∀ n ∈ (us.filter fun u => a ≤ u.time ∧ u.time ≤ a + T).map
      fun u => u.bytes.length, n = updateSize := by
    intro n hn
    obtain ⟨u, hu, rfl⟩ := List.mem_map.mp hn
    exact h u (List.mem_of_mem_filter hu)
  rw [List.length_flatMap, List.eq_replicate_of_mem hbytes, List.sum_replicate, List.length_map,
    smul_eq_mul, Nat.mul_comm, ← List.countP_eq_length_filter]

/-- **The serial line is not flooded.** In a run of the receiver whose clock does not go back, an
update that is not forced stays away from all before it, and the bytes written in a window of time,
with those that are written on opening the port, are at most those of the updates there is room for,
of two more, and of one for each START and END that arrived in the window. -/
theorem display_spaced (env : Env) (ft : FloatText) (wk : Worker) (cleared opened now : ℕ)
    {turns : List (Bytes × ℕ)} (hclock : (cleared :: now :: turns.map Prod.snd).Pairwise (· ≤ ·))
    (a T : ℕ) :
    ((runDisplayed env ft (wk, .start ft cleared opened now wk) turns).2.written.Pairwise
        fun x y => y.forced = false → x.time + minInterval ≤ y.time) ∧
      (((runDisplayed env ft (wk, .start ft cleared opened now wk) turns).2.written.filter fun u =>
          a ≤ u.time ∧ u.time ≤ a + T).flatMap Written.bytes).length ≤
        updateSize * (T / minInterval + 2 +
          turns.countP fun turn => (a ≤ turn.2 ∧ turn.2 ≤ a + T) ∧ startsOrEnds turn.1) := by
  have hapart := (runDisplayed_unhurried env ft wk opened hclock).apart
  obtain ⟨more, hmore, hforced⟩ := countP_forced_le env ft wk (.start ft cleared opened now wk)
    turns fun t => a ≤ t ∧ t ≤ a + T
  have hsize : ∀ u ∈ (runDisplayed env ft (wk, .start ft cleared opened now wk) turns).2.written,
      u.bytes.length = updateSize := by
    intro u hu
    obtain rfl | rfl | ⟨front, turn, rest, -, hu⟩ := mem_written_start hu
    · rfl
    · exact length_updateBytes ft wk.stats wk.state
    · rw [hu.bytes, length_updateBytes]
  rw [hmore, Display.start_written, List.cons_append, List.singleton_append] at hapart hsize ⊢
  refine ⟨hapart, ?_⟩
  have hwindow := countP_window_le (List.pairwise_cons.mp hapart).2 a T
  rw [length_bytes_window hsize, List.countP_cons]
  refine Nat.mul_le_mul_left updateSize ?_
  simp only [Bool.decide_and, Bool.decide_eq_true] at hwindow hforced ⊢
  split <;> omega

/-- Two ENDs, four seconds apart, and a second in between. -/
theorem display_spaced_twoEnds :
    (((runDisplayed referenceEnv truncatedText
        (.new referenceTree, .start truncatedText 0 0 0 (.new referenceTree))
        [(endPacket ['a'] 0, 1000000000),
          (endPacket ['a'] 0, 5000000000)]).2.written.filter fun u =>
        2000000000 ≤ u.time ∧ u.time ≤ 2000000000 + 1000000000).flatMap Written.bytes).length ≤
      updateSize * (1000000000 / minInterval + 2 + 0) :=
  (display_spaced referenceEnv truncatedText (.new referenceTree) 0 0 0 (by simp) 2000000000
    1000000000).2.trans_eq (by simp)

end DataDiode
