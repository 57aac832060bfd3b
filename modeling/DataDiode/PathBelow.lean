import DataDiode.UnixPath
import Mathlib.Data.List.DropRight

/-!
# Paths Below a Base

`stripPrefix` takes a base off the front of a path. It compares components and returns the text
behind them, without the parts at either end that stand for no component; what lies in between is
returned as it is written. A path that is made from a base by joining names one by one is the base
and these names: stripped of the base, it is the names with separators in between, whatever the
base looks like.

## Main results

* `filterMap_pieces`: the components of a path are those its parts stand for.
* `stripPrefix_foldl_join`: what is left of a base joined with names.
-/

namespace UnixPath

/-- A part of a path, and the component it stands for, if any. -/
abbrev Piece := Name × Option Component

/-- A part away from the front of a path. -/
def innerPiece (part : Name) : Piece := (part, partComponent part)

/-- The parts of a path with the components they stand for. The first part may stand for the
front. -/
def pieces (p : Path) : List Piece :=
  match parts p with
  | [] => []
  | first :: rest => (first, (front p).head?.or (partComponent first)) :: rest.map innerPiece

/-- The pieces behind the components `cs`, if the pieces start with them. -/
def piecesAfter : List Piece → List Component → Option (List Piece)
  | ps, [] => some ps
  | [], _ :: _ => none
  | (_, none) :: ps, c :: cs => piecesAfter ps (c :: cs)
  | (_, some d) :: ps, c :: cs => if d = c then piecesAfter ps cs else none

/-- Whether a piece stands for no component. -/
def Piece.isBlank (piece : Piece) : Bool := piece.2.isNone

/-- The text of pieces, without the blank ones at either end. -/
def writtenBy (ps : List Piece) : Path :=
  let ps := (ps.dropWhile Piece.isBlank).rdropWhile Piece.isBlank
  if ps = [([], some .rootDir)] then ['/'] else ['/'].intercalate (ps.map Prod.fst)

/-- What is left of a path behind the components of a base, if it starts with them. -/
def stripPrefix (p base : Path) : Option Path :=
  (piecesAfter (pieces p) (components base)).map writtenBy

/-! ### Pieces -/

/-- The components of the pieces in between. -/
theorem filterMap_innerPiece (ps : List Name) :
    (ps.map innerPiece).filterMap Prod.snd = ps.filterMap partComponent := by
  rw [List.filterMap_map]
  rfl

/-- **The components of a path** are those its parts stand for. -/
theorem filterMap_pieces (p : Path) : (pieces p).filterMap Prod.snd = components p := by
  obtain ⟨first, rest, hp⟩ := List.exists_cons_of_ne_nil (parts_ne_nil p)
  rw [components, body, hp]
  simp only [pieces, hp]
  by_cases habs : isAbsolute p = true
  · have hfirst : first = [] := by
      have := head?_parts_of_isAbsolute habs
      rwa [hp, List.head?_cons, Option.some.injEq] at this
    rw [front, if_pos habs, List.filterMap_cons_some (by rfl), filterMap_innerPiece,
      List.filterMap_cons_none (by simp [hfirst, partComponent])]
    rfl
  by_cases hdot : first = ['.']
  · rw [front, if_neg habs, hp, List.head?_cons, if_pos (by rw [hdot]),
      List.filterMap_cons_some (by rfl), filterMap_innerPiece,
      List.filterMap_cons_none (by simp [hdot, partComponent])]
    rfl
  · rw [front, if_neg habs, hp, List.head?_cons, if_neg (by simpa using hdot), List.nil_append]
    exact filterMap_innerPiece (first :: rest)

/-- A separator between two texts: the second one is written in inner pieces. -/
theorem pieces_append_sep {p : Path} (hp : p ≠ []) (q : Path) :
    pieces (p ++ '/' :: q) = pieces p ++ (parts q).map innerPiece := by
  obtain ⟨first, rest, hparts⟩ := List.exists_cons_of_ne_nil (parts_ne_nil p)
  simp only [pieces, parts_append_sep, front_append_sep hp, hparts, List.cons_append,
    List.map_append]

/-- A path that starts at the root. -/
theorem pieces_root (q : Path) :
    pieces ('/' :: q) = ([], some .rootDir) :: (parts q).map innerPiece := by
  simp [pieces, parts_cons, front, isAbsolute]

/-! ### Joining names -/

/-- A name that can stand in a directory. -/
structure IsName (n : Name) : Prop where
  ne_nil : n ≠ []
  noSlash : '/' ∉ n
  ne_curDir : n ≠ ['.']
  ne_parentDir : n ≠ ['.', '.']

/-- A name as a piece. -/
def namePiece (n : Name) : Piece := (n, some (.normal n))

section Names

variable {n : Name} (hn : IsName n)

include hn

/-- A name is one piece. -/
theorem IsName.innerPiece_eq : innerPiece n = namePiece n := by
  rw [innerPiece, namePiece,
    partComponent_eq_normal_iff.mpr ⟨rfl, hn.ne_nil, hn.ne_curDir, hn.ne_parentDir⟩]

/-- A name is not an absolute path. -/
theorem IsName.isAbsolute_eq : isAbsolute n = false := by
  by_contra h
  have hhead : n.head? = some '/' := by simpa [isAbsolute] using h
  exact hn.noSlash (List.mem_of_mem_head? hhead)

/-- A path that ends with a name does not end with a separator. -/
theorem IsName.getLast?_append_ne (p : Path) : (p ++ n).getLast? ≠ some '/' := by
  rw [List.getLast?_append_of_ne_nil _ hn.ne_nil]
  exact fun h => hn.noSlash (List.mem_of_getLast? h)

/-- A name alone. -/
theorem IsName.pieces_eq : pieces n = [namePiece n] := by
  have hfront : front n = [] := by
    rw [front, hn.isAbsolute_eq, parts_of_not_mem hn.noSlash, List.head?_cons,
      if_neg Bool.false_ne_true, if_neg (by simpa using hn.ne_curDir)]
  have hpiece := hn.innerPiece_eq
  rw [innerPiece] at hpiece
  simp only [pieces, parts_of_not_mem hn.noSlash, hfront, List.head?_nil, Option.none_or, hpiece,
    List.map_nil]

/-- **A name below a base** is one more piece behind pieces that read as the base. -/
theorem exists_pieces_join (base : Path) :
    ∃ init, pieces (join base n) = init ++ [namePiece n] ∧
      init.filterMap Prod.snd = components base := by
  have hinner : (parts n).map innerPiece = [namePiece n] := by
    rw [parts_of_not_mem hn.noSlash, List.map_cons, hn.innerPiece_eq, List.map_nil]
  rw [join, hn.isAbsolute_eq, if_neg Bool.false_ne_true]
  by_cases hb : base = []
  · subst hb
    exact ⟨[], by rw [if_pos (Or.inl rfl), List.nil_append, hn.pieces_eq, List.nil_append],
      by decide⟩
  by_cases hlast : base.getLast? = some '/'
  · rw [if_pos (Or.inr hlast)]
    obtain ⟨b, rfl⟩ : ∃ b, base = b ++ ['/'] := List.getLast?_eq_some_iff.mp hlast
    rw [List.append_assoc, List.singleton_append]
    by_cases hbn : b = []
    · subst hbn
      exact ⟨[([], some .rootDir)], by rw [List.nil_append, pieces_root, hinner]; rfl, by decide⟩
    · exact ⟨pieces b, by rw [pieces_append_sep hbn, hinner],
        by rw [filterMap_pieces, components_append_slash hbn]⟩
  · exact ⟨pieces base, by rw [if_neg (by simp [hb, hlast]), pieces_append_sep hb, hinner],
      filterMap_pieces base⟩

/-- A joined path can be joined further with a separator. -/
theorem join_ready (base : Path) : join base n ≠ [] ∧ (join base n).getLast? ≠ some '/' := by
  rw [join, hn.isAbsolute_eq, if_neg Bool.false_ne_true]
  split
  · exact ⟨by simp [hn.ne_nil], hn.getLast?_append_ne base⟩
  · rw [← List.singleton_append, ← List.append_assoc]
    exact ⟨by simp, hn.getLast?_append_ne _⟩

end Names

/-- More names add their pieces. -/
theorem pieces_foldl_join {ns : List Name} (hns : ∀ n ∈ ns, IsName n) :
    ∀ {p : Path}, p ≠ [] → p.getLast? ≠ some '/' →
      pieces (ns.foldl join p) = pieces p ++ ns.map namePiece := by
  induction ns with
  | nil => exact fun _ _ => (List.append_nil _).symm
  | cons n ns ih =>
      intro p hp hlast
      have hn : IsName n := hns n List.mem_cons_self
      have hjoin : join p n = p ++ '/' :: n := by
        rw [join, hn.isAbsolute_eq, if_neg Bool.false_ne_true, if_neg (by simp [hp, hlast])]
      obtain ⟨hne, hready⟩ := join_ready hn p
      rw [List.foldl_cons, ih (fun m hm => hns m (List.mem_cons_of_mem _ hm)) hne hready, hjoin,
        pieces_append_sep hp, parts_of_not_mem hn.noSlash, List.map_cons, hn.innerPiece_eq,
        List.append_assoc]
      rfl

/-! ### Stripping the base -/

/-- Behind all components of the front pieces, only blank ones of them are left. -/
theorem piecesAfter_append (init ps : List Piece) :
    ∃ blank, piecesAfter (init ++ ps) (init.filterMap Prod.snd) = some (blank ++ ps) ∧
      ∀ piece ∈ blank, piece.isBlank = true := by
  induction init with
  | nil => exact ⟨[], by rw [List.filterMap_nil, piecesAfter], by simp⟩
  | cons piece init ih =>
      obtain ⟨blank, hafter, hblank⟩ := ih
      obtain ⟨part, _ | c⟩ := piece
      · rw [List.filterMap_cons_none (by rfl)]
        cases hcs : init.filterMap Prod.snd with
        | nil =>
            refine ⟨(part, none) :: init, by rw [piecesAfter], ?_⟩
            intro piece hpiece
            rcases List.mem_cons.mp hpiece with rfl | hpiece
            · rfl
            · have hnone := List.filterMap_eq_nil_iff.mp hcs piece hpiece
              rw [Piece.isBlank, hnone]
              rfl
        | cons c cs =>
            rw [hcs] at hafter
            exact ⟨blank, by rw [List.cons_append, piecesAfter, hafter], hblank⟩
      · rw [List.filterMap_cons_some (by rfl), List.cons_append, piecesAfter, if_pos rfl]
        exact ⟨blank, hafter, hblank⟩

/-- Names behind blank pieces are written with separators in between. -/
theorem writtenBy_names {blank : List Piece} (hblank : ∀ piece ∈ blank, piece.isBlank = true)
    {ns : List Name} (hns : ns ≠ []) :
    writtenBy (blank ++ ns.map namePiece) = ['/'].intercalate ns := by
  have hleft : (blank ++ ns.map namePiece).dropWhile Piece.isBlank = ns.map namePiece := by
    rw [List.dropWhile_append_of_pos hblank]
    cases ns with
    | nil => rfl
    | cons n ns => rfl
  have hright : (ns.map namePiece).rdropWhile Piece.isBlank = ns.map namePiece := by
    rw [List.rdropWhile_eq_self_iff]
    intro hne
    rw [List.getLast_map]
    exact Bool.false_ne_true
  have hroot : ns.map namePiece ≠ [([], some .rootDir)] := by
    cases ns with
    | nil => exact absurd rfl hns
    | cons n ns => simp [namePiece]
  have hfst : (ns.map namePiece).map Prod.fst = ns := by
    rw [List.map_map]
    exact List.map_id ns
  rw [writtenBy, hleft, hright, if_neg hroot, hfst]

/-- **Stripping the base** off a path joined from it and names leaves the names. -/
theorem stripPrefix_foldl_join (base : Path) {ns : List Name} (hne : ns ≠ [])
    (hns : ∀ n ∈ ns, IsName n) :
    stripPrefix (ns.foldl join base) base = some (['/'].intercalate ns) := by
  obtain ⟨n, rest, rfl⟩ := List.exists_cons_of_ne_nil hne
  have hn : IsName n := hns n List.mem_cons_self
  obtain ⟨init, hpieces, hinit⟩ := exists_pieces_join hn base
  obtain ⟨hjoin, hlast⟩ := join_ready hn base
  have hall : pieces ((n :: rest).foldl join base) = init ++ (n :: rest).map namePiece := by
    rw [List.foldl_cons,
      pieces_foldl_join (fun m hm => hns m (List.mem_cons_of_mem _ hm)) hjoin hlast, hpieces,
      List.append_assoc]
    rfl
  obtain ⟨blank, hafter, hblank⟩ := piecesAfter_append init ((n :: rest).map namePiece)
  rw [stripPrefix, hall, ← hinit, hafter, Option.map_some, writtenBy_names hblank hne]

end UnixPath
