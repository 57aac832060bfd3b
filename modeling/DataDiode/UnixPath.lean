import Mathlib.Data.List.Basic

/-!
# Lexical Unix Paths

A path is the character string handed to the operating system. `components` is its
lexical reading: repeated separators, a trailing separator and every `.` that is not
leading disappear, a leading `/` is the root, `..` is kept. `join` is the path
concatenation of the usual path libraries — an absolute right operand *replaces* the
left one — and `resolve` interprets a path from a working directory with `..` climbing.

A **plain** path is a relative one made of ordinary names only. The containment facts of
this module say that joining a plain path, or a plain path with a suffix glued to its last
name, below a base directory appends ordinary names to the components of the base.

## Main results

* `components_join`: below a base, a plain path contributes exactly its own names.
* `plain_iff`: which texts are plain, in terms of their parts.
* `Plain.append_suffix`: gluing a suffix to a plain path keeps it plain, whatever the path
  ends in.
* `components_parent`: the parent has all components but the last.
* `resolve_of_components`: a path whose components extend those of a base by names is at the
  location of the base extended by these names.
-/

namespace UnixPath

/-- A file name or any other part of a path. -/
abbrev Name := List Char

/-- A path as the operating system receives it. -/
abbrev Path := List Char

/-- The components of a path. -/
inductive Component
  | rootDir
  | curDir
  | parentDir
  | normal (name : Name)
  deriving DecidableEq, Repr

/-- The component a part between separators stands for, away from the front of the
path. -/
def partComponent (part : Name) : Option Component :=
  if part = [] ∨ part = ['.'] then none
  else if part = ['.', '.'] then some .parentDir
  else some (.normal part)

/-- The parts of a path between its separators. -/
def parts (p : Path) : List Name := p.splitOn '/'

/-- Whether a path starts at the root. -/
def isAbsolute (p : Path) : Bool := p.head? = some '/'

/-- The component the front of a path contributes on its own: the root, or a leading
`.`. -/
def front (p : Path) : List Component :=
  if isAbsolute p then [.rootDir]
  else if (parts p).head? = some ['.'] then [.curDir]
  else []

/-- The components of the parts of a path. -/
def body (p : Path) : List Component := (parts p).filterMap partComponent

/-- The lexical components of a path. -/
def components (p : Path) : List Component := front p ++ body p

/-- Path concatenation: an absolute right operand replaces the left one, and a separator
is put in where the left one does not end in one. -/
def join (base p : Path) : Path :=
  if isAbsolute p then p
  else if base = [] ∨ base.getLast? = some '/' then base ++ p
  else base ++ '/' :: p

/-- The text of a component. -/
def Component.text : Component → Name
  | .rootDir => []
  | .curDir => ['.']
  | .parentDir => ['.', '.']
  | .normal name => name

/-- A path with the given components. -/
def ofComponents (cs : List Component) : Path :=
  if cs = [.rootDir] then ['/'] else ['/'].intercalate (cs.map Component.text)

/-- The path without its last component, if it has one to drop. -/
def parent (p : Path) : Option Path :=
  match (components p).getLast? with
  | none | some .rootDir => none
  | some _ => some (ofComponents (components p).dropLast)

/-- Whether the text of a path can only name a directory: it ends in a separator or in a
dot component. -/
def demandsDir (p : Path) : Bool :=
  match (parts p).getLast? with
  | some part => part = [] || part = ['.'] || part = ['.', '.']
  | none => false

/-- A location: the names on the way down from the root directory. -/
abbrev Location := List Name

/-- One component, followed from a location. -/
def follow (loc : Location) : Component → Location
  | .rootDir => []
  | .curDir => loc
  | .parentDir => loc.dropLast
  | .normal name => loc ++ [name]

/-- The location a path names, from a working directory. -/
def resolve (cwd : Location) (p : Path) : Location := (components p).foldl follow cwd

/-! ### Parts -/

/-- A path has at least one part, if only an empty one. -/
theorem parts_ne_nil (p : Path) : parts p ≠ [] := List.splitOn_ne_nil _ _

/-- A separator splits a path into the parts of both sides. -/
theorem parts_append_sep (p q : Path) : parts (p ++ '/' :: q) = parts p ++ parts q :=
  List.splitOn_append_cons_self p q

/-- Without a separator there is one part. -/
theorem parts_of_not_mem {p : Path} (h : '/' ∉ p) : parts p = [p] :=
  List.splitOn_eq_singleton h

/-- The empty path has one part, which is empty. -/
theorem parts_nil : parts [] = [[]] := rfl

/-- The first character starts a part of its own, or belongs to the first. -/
theorem parts_cons (c : Char) (p : Path) :
    parts (c :: p) = if c = '/' then [] :: parts p else (parts p).modifyHead (c :: ·) := by
  simp only [parts, List.splitOn_cons_eq_if_modifyHead, beq_iff_eq]

/-- No part holds a separator. -/
theorem not_mem_of_mem_parts {p : Path} : ∀ {part : Name}, part ∈ parts p → '/' ∉ part := by
  induction p with
  | nil =>
      intro part h
      rw [parts_nil, List.mem_singleton] at h
      rw [h]
      exact List.not_mem_nil
  | cons c p ih =>
      intro part h
      rw [parts_cons] at h
      split at h
      · rcases List.mem_cons.mp h with rfl | h
        · exact List.not_mem_nil
        · exact ih h
      · rename_i hc
        obtain ⟨first, rest, hp⟩ := List.exists_cons_of_ne_nil (parts_ne_nil p)
        rw [hp, List.modifyHead_cons, List.mem_cons] at h
        rcases h with rfl | h
        · have hfirst : '/' ∉ first := ih (by rw [hp]; exact List.mem_cons_self)
          simp only [List.mem_cons, not_or]
          exact ⟨fun e => hc e.symm, hfirst⟩
        · exact ih (by rw [hp]; exact List.mem_cons_of_mem _ h)

/-- A suffix without separators is glued to the last part. -/
theorem parts_append_suffix {ext : Name} (hext : '/' ∉ ext) (p : Path) :
    ∃ init last, parts p = init ++ [last] ∧ parts (p ++ ext) = init ++ [last ++ ext] := by
  induction p with
  | nil => exact ⟨[], [], rfl, parts_of_not_mem hext⟩
  | cons c p ih =>
      obtain ⟨init, last, hp, hpe⟩ := ih
      rw [List.cons_append, parts_cons, parts_cons, hp, hpe]
      split
      · exact ⟨[] :: init, last, rfl, rfl⟩
      · cases init with
        | nil => exact ⟨[], c :: last, rfl, rfl⟩
        | cons first init => exact ⟨(c :: first) :: init, last, rfl, rfl⟩

/-- A path that does not start at the root has a non-empty first part, unless it is
empty. -/
theorem head?_parts_ne_nil {p : Path} (hne : p ≠ []) (habs : isAbsolute p = false) :
    (parts p).head? ≠ some [] := by
  cases p with
  | nil => exact absurd rfl hne
  | cons c p =>
      have hc : c ≠ '/' := by simpa [isAbsolute] using habs
      rw [parts_cons, if_neg hc]
      obtain ⟨first, rest, hp⟩ := List.exists_cons_of_ne_nil (parts_ne_nil p)
      simp [hp]

/-- In front of the root there is an empty part. -/
theorem head?_parts_of_isAbsolute {p : Path} (h : isAbsolute p = true) :
    (parts p).head? = some [] := by
  cases p with
  | nil => rfl
  | cons c p =>
      have hc : c = '/' := by simpa [isAbsolute] using h
      rw [parts_cons, if_pos hc, List.head?_cons]

/-- A path starts like its first part, if that is not empty. -/
theorem head?_eq_of_parts {p : Path} {first : Name} {rest : List Name}
    (h : parts p = first :: rest) (hne : first ≠ []) : p.head? = first.head? := by
  cases p with
  | nil =>
      rw [parts_nil] at h
      exact absurd (List.cons.inj h).1.symm hne
  | cons c p =>
      obtain ⟨first', rest', hp⟩ := List.exists_cons_of_ne_nil (parts_ne_nil p)
      rw [parts_cons] at h
      split at h
      · exact absurd (List.cons.inj h).1.symm hne
      · rw [hp, List.modifyHead_cons] at h
        rw [← (List.cons.inj h).1, List.head?_cons, List.head?_cons]

/-! ### Joining -/

/-- Whether a path is absolute is seen from its front. -/
theorem isAbsolute_append_of_ne_nil {base q : Path} (hb : base ≠ []) :
    isAbsolute (base ++ q) = isAbsolute base := by
  cases base with
  | nil => exact absurd rfl hb
  | cons c base => rfl

/-- The first part comes from the first path. -/
theorem head?_append_parts (p q : Path) : (parts p ++ parts q).head? = (parts p).head? := by
  obtain ⟨first, rest, hp⟩ := List.exists_cons_of_ne_nil (parts_ne_nil p)
  simp [hp]

/-- A separator in between keeps the components apart. -/
theorem body_append_sep (p q : Path) : body (p ++ '/' :: q) = body p ++ body q := by
  rw [body, parts_append_sep, List.filterMap_append]
  rfl

/-- The front of a path does not change with what comes behind. -/
theorem front_append_sep {p : Path} (hp : p ≠ []) (q : Path) :
    front (p ++ '/' :: q) = front p := by
  rw [front, isAbsolute_append_of_ne_nil hp, parts_append_sep, head?_append_parts]
  rfl

/-- A trailing separator contributes nothing. -/
theorem components_append_slash {p : Path} (hp : p ≠ []) :
    components (p ++ ['/']) = components p := by
  rw [components, components, front_append_sep hp, body_append_sep]
  simp [body, parts_nil, partComponent]

/-- **Joining below a base**: the components of a relative path without a leading dot are
appended to those of the base. -/
theorem components_join {base p : Path} (hp : front p = []) :
    components (join base p) = components base ++ components p := by
  have habs : isAbsolute p = false := by
    by_contra h
    rw [front, if_pos (by simpa using h)] at hp
    exact List.cons_ne_nil _ _ hp
  have hcomp : components p = body p := by rw [components, hp, List.nil_append]
  rw [join, habs, if_neg Bool.false_ne_true, hcomp]
  by_cases hb : base = []
  · subst hb
    rw [if_pos (Or.inl rfl), List.nil_append, hcomp]
    simp [components, front, body, parts_nil, partComponent, isAbsolute]
  by_cases hlast : base.getLast? = some '/'
  · -- the base already ends in a separator
    rw [if_pos (Or.inr hlast)]
    obtain ⟨b, rfl⟩ : ∃ b, base = b ++ ['/'] := List.getLast?_eq_some_iff.mp hlast
    rw [List.append_assoc, List.singleton_append]
    by_cases hbn : b = []
    · subst hbn
      simp [components, front, body, isAbsolute, parts_cons, partComponent, parts_nil]
    · rw [components, front_append_sep hbn, body_append_sep, components_append_slash hbn,
        components, List.append_assoc]
  · rw [if_neg (by simp [hb, hlast]), components, front_append_sep hb, body_append_sep,
      components, List.append_assoc]

/-! ### Plain paths -/

/-- A **plain** path: relative, and made of ordinary names only. -/
structure Plain (p : Path) : Prop where
  ne_nil : p ≠ []
  relative : isAbsolute p = false
  normal : ∀ c ∈ components p, ∃ name, c = .normal name

/-- A plain path has no root and no `.` in front. -/
theorem Plain.front_eq {p : Path} (h : Plain p) : front p = [] := by
  rw [front, h.relative, if_neg Bool.false_ne_true]
  refine if_neg fun hdot => ?_
  have hmem : Component.curDir ∈ components p := by
    rw [components, front, h.relative, if_neg Bool.false_ne_true, if_pos hdot]
    exact List.mem_append_left _ List.mem_cons_self
  obtain ⟨name, hname⟩ := h.normal _ hmem
  exact Component.noConfusion hname

/-- The components of a plain path are its body. -/
theorem Plain.components_eq_body {p : Path} (h : Plain p) : components p = body p := by
  rw [components, h.front_eq, List.nil_append]

/-- What is read as a name. -/
theorem partComponent_eq_normal_iff {part name : Name} :
    partComponent part = some (.normal name) ↔
      part = name ∧ part ≠ [] ∧ part ≠ ['.'] ∧ part ≠ ['.', '.'] := by
  rw [partComponent]
  split
  · rename_i h
    rcases h with rfl | rfl <;> simp
  · rename_i h
    rw [not_or] at h
    split
    · simp_all
    · rename_i h2
      simp only [Option.some.injEq, Component.normal.injEq]
      exact ⟨fun e => ⟨e, h.1, h.2, h2⟩, fun e => e.1⟩

/-- The names of a plain path. -/
def names (p : Path) : List Name := (parts p).filter fun part => part ≠ [] ∧ part ≠ ['.']

/-- No part of a plain path goes up. -/
theorem Plain.parts_ne_dots {p : Path} (h : Plain p) : ∀ part ∈ parts p, part ≠ ['.', '.'] := by
  rintro part hpart rfl
  have hmem : Component.parentDir ∈ components p := by
    rw [h.components_eq_body, body, List.mem_filterMap]
    exact ⟨['.', '.'], hpart, by simp [partComponent]⟩
  obtain ⟨name, hname⟩ := h.normal _ hmem
  exact Component.noConfusion hname

/-- A path is plain exactly when it is relative and not empty, no part goes up, and the
first part is not a dot. Dots further in, like repeated separators, leave no component. -/
theorem plain_iff {p : Path} :
    Plain p ↔ p ≠ [] ∧ isAbsolute p = false ∧ (parts p).head? ≠ some ['.'] ∧
      ['.', '.'] ∉ parts p := by
  constructor
  · intro h
    refine ⟨h.ne_nil, h.relative, ?_, fun hup => h.parts_ne_dots _ hup rfl⟩
    intro hdot
    have hfront := h.front_eq
    rw [front, h.relative, if_neg Bool.false_ne_true, if_pos hdot] at hfront
    exact List.cons_ne_nil _ _ hfront
  · rintro ⟨hne, habs, hdot, hup⟩
    refine ⟨hne, habs, ?_⟩
    intro c hc
    rw [components, front, habs, if_neg Bool.false_ne_true, if_neg hdot, List.nil_append, body,
      List.mem_filterMap] at hc
    obtain ⟨part, hpart, hc⟩ := hc
    have hpartUp : part ≠ ['.', '.'] := fun e => hup (e ▸ hpart)
    rw [partComponent, if_neg hpartUp] at hc
    split at hc
    · exact absurd hc (by simp)
    · exact ⟨part, (Option.some.inj hc).symm⟩

/-- **A plain path** has nothing but names. -/
theorem Plain.components_eq {p : Path} (h : Plain p) :
    components p = (names p).map Component.normal := by
  have hparts := h.parts_ne_dots
  rw [h.components_eq_body, body, names]
  revert hparts
  induction parts p with
  | nil => exact fun _ => rfl
  | cons part rest ih =>
      intro hparts
      have hrest := ih fun q hq => hparts q (List.mem_cons_of_mem _ hq)
      have hpart := hparts part List.mem_cons_self
      by_cases hskip : part = [] ∨ part = ['.']
      · have hnone : partComponent part = none := if_pos hskip
        rw [List.filterMap_cons_none hnone, List.filter_cons_of_neg (by simpa using by tauto),
          hrest]
      · have hsome : partComponent part = some (.normal part) := by
          rw [partComponent, if_neg hskip, if_neg hpart]
        rw [List.filterMap_cons_some hsome, List.filter_cons_of_pos (by simpa using by tauto),
          List.map_cons, hrest]

/-- A plain path has at least one name. -/
theorem Plain.names_ne_nil {p : Path} (h : Plain p) : names p ≠ [] := by
  obtain ⟨first, rest, hp⟩ := List.exists_cons_of_ne_nil (parts_ne_nil p)
  have hne : first ≠ [] := by
    have := head?_parts_ne_nil h.ne_nil h.relative
    rw [hp, List.head?_cons] at this
    exact fun e => this (by rw [e])
  have hdot : first ≠ ['.'] := by
    rintro rfl
    have hfront := h.front_eq
    rw [front, h.relative, if_neg Bool.false_ne_true, hp, List.head?_cons, if_pos rfl] at hfront
    exact List.cons_ne_nil _ _ hfront
  rw [names, hp, List.filter_cons_of_pos (by simp [hne, hdot])]
  exact List.cons_ne_nil _ _

/-- The directory names of a path: the names of all parts but the last. -/
def dirNames (p : Path) : List Name :=
  (parts p).dropLast.filter fun part => part ≠ [] ∧ part ≠ ['.']

/-- The last part of a path, which is empty behind a trailing separator. -/
def lastPart (p : Path) : Name := (parts p).getLast (parts_ne_nil p)

/-- The last part, and those before it. -/
theorem parts_eq_dropLast_append (p : Path) : parts p = (parts p).dropLast ++ [lastPart p] :=
  (List.dropLast_append_getLast _).symm

/-- The names of a path are those of its directory and its last part. -/
theorem names_eq (p : Path) :
    names p = dirNames p ++ [lastPart p].filter fun part => part ≠ [] ∧ part ≠ ['.'] := by
  rw [names, parts_eq_dropLast_append, List.filter_append]
  rfl

/-- A suffix without a separator goes to the last part. -/
theorem parts_append_suffix_eq {ext : Name} (hext : '/' ∉ ext) (p : Path) :
    parts (p ++ ext) = (parts p).dropLast ++ [lastPart p ++ ext] := by
  obtain ⟨init, last, hp, hpe⟩ := parts_append_suffix hext p
  have hlast : lastPart p = last := by simp [lastPart, hp]
  rw [hpe, hlast, hp, List.dropLast_concat]

/-- A suffix of at least three characters turns every part into an ordinary name. -/
theorem partComponent_append (part : Name) {ext : Name} (hlen : 2 < ext.length) :
    partComponent (part ++ ext) = some (.normal (part ++ ext)) := by
  rw [partComponent_eq_normal_iff]
  refine ⟨rfl, ?_, ?_, ?_⟩ <;>
    · intro e
      have := congrArg List.length e
      rw [List.length_append] at this
      simp only [List.length_cons, List.length_nil] at this
      omega

/-- **Gluing a suffix** of at least three characters to a plain path keeps it plain: the
last part becomes an ordinary name whether it was one before, or empty, or a dot. -/
theorem Plain.append_suffix {p : Path} (h : Plain p) {ext : Name} (hext : '/' ∉ ext)
    (hlen : 2 < ext.length) : Plain (p ++ ext) := by
  have habs : isAbsolute (p ++ ext) = false := by
    rw [isAbsolute_append_of_ne_nil h.ne_nil, h.relative]
  have hfront : front (p ++ ext) = [] := by
    rw [front, habs, if_neg Bool.false_ne_true, parts_append_suffix_eq hext]
    refine if_neg fun hdot => ?_
    cases hinit : (parts p).dropLast with
    | nil =>
        rw [hinit, List.nil_append, List.head?_cons, Option.some.injEq] at hdot
        have := congrArg List.length hdot
        simp at this
        omega
    | cons first rest =>
        rw [hinit, List.cons_append, List.head?_cons, Option.some.injEq] at hdot
        have hp := h.front_eq
        rw [front, h.relative, if_neg Bool.false_ne_true, parts_eq_dropLast_append, hinit,
          List.cons_append, List.head?_cons, hdot, if_pos rfl] at hp
        exact List.cons_ne_nil _ _ hp
  refine ⟨by simp [h.ne_nil], habs, ?_⟩
  intro c hc
  rw [components, hfront, List.nil_append, body, parts_append_suffix_eq hext,
    List.filterMap_append, List.mem_append] at hc
  rcases hc with hc | hc
  · refine h.normal c ?_
    rw [h.components_eq_body, body, parts_eq_dropLast_append, List.filterMap_append]
    exact List.mem_append_left _ hc
  · rw [List.filterMap_cons_some (partComponent_append _ hlen), List.filterMap_nil,
      List.mem_singleton] at hc
    exact ⟨_, hc⟩

/-- The names of a path with a suffix glued on. -/
theorem names_append_suffix {p : Path} {ext : Name} (hext : '/' ∉ ext)
    (hlen : 2 < ext.length) : names (p ++ ext) = dirNames p ++ [lastPart p ++ ext] := by
  obtain ⟨-, hne, hdot, -⟩ :=
    partComponent_eq_normal_iff.mp (partComponent_append (lastPart p) hlen)
  rw [names, parts_append_suffix_eq hext, List.filter_append,
    List.filter_cons_of_pos (by simpa only [decide_eq_true_eq] using ⟨hne, hdot⟩)]
  rfl

/-- A path and the same path with a suffix glued on have different names. -/
theorem names_ne_names_append_suffix {p : Path} {ext : Name} (hext : '/' ∉ ext)
    (hlen : 2 < ext.length) : names p ≠ names (p ++ ext) := by
  rw [names_append_suffix hext hlen, names_eq]
  intro h
  have htail := List.append_cancel_left h
  by_cases hkeep : lastPart p ≠ [] ∧ lastPart p ≠ ['.']
  · rw [List.filter_cons_of_pos (by simpa using hkeep), List.filter_nil, List.cons.injEq] at htail
    have := congrArg List.length htail.1
    simp at this
    simp [this] at hlen
  · rw [List.filter_cons_of_neg (by simpa using hkeep), List.filter_nil] at htail
    exact List.cons_ne_nil _ _ htail.symm

/-- Different suffixes give different names. -/
theorem names_append_suffix_ne {p : Path} {ext ext' : Name} (hext : '/' ∉ ext)
    (hext' : '/' ∉ ext') (hlen : 2 < ext.length) (hlen' : 2 < ext'.length) (hne : ext ≠ ext') :
    names (p ++ ext) ≠ names (p ++ ext') := by
  rw [names_append_suffix hext hlen, names_append_suffix hext' hlen']
  intro h
  have htail := List.append_cancel_left h
  rw [List.cons.injEq] at htail
  exact hne (List.append_cancel_left htail.1)

/-! ### Parents -/

/-- Components that can stand behind the front of a path. -/
def IsBody (c : Component) : Prop :=
  c = .parentDir ∨ ∃ name, c = .normal name ∧ '/' ∉ name ∧ partComponent name = some c

/-- Components behind the front are names and `..`. -/
theorem isBody_of_mem_body {p : Path} {c : Component} (h : c ∈ body p) : IsBody c := by
  obtain ⟨part, hpart, hc⟩ := List.mem_filterMap.mp h
  cases c with
  | rootDir | curDir =>
      rw [partComponent] at hc
      split at hc
      · exact absurd hc (by simp)
      · split at hc <;> exact absurd hc (by simp)
  | parentDir => exact Or.inl rfl
  | normal name =>
      have hn := partComponent_eq_normal_iff.mp hc
      exact Or.inr ⟨name, rfl, hn.1 ▸ not_mem_of_mem_parts hpart, hn.1 ▸ hc⟩

/-- Components of a body are read back from their texts. -/
theorem IsBody.partComponent_text {c : Component} (h : IsBody c) :
    partComponent c.text = some c := by
  rcases h with rfl | ⟨name, rfl, -, hname⟩
  · simp [partComponent, Component.text]
  · exact hname

/-- The texts of components of a body have no separators. -/
theorem IsBody.not_mem_text {c : Component} (h : IsBody c) : '/' ∉ c.text := by
  rcases h with rfl | ⟨name, rfl, hname, -⟩
  · simp [Component.text]
  · exact hname

/-- A list of them is read back from its texts. -/
theorem filterMap_partComponent_text {cs : List Component} (h : ∀ c ∈ cs, IsBody c) :
    (cs.map Component.text).filterMap partComponent = cs := by
  induction cs with
  | nil => rfl
  | cons c cs ih =>
      rw [List.map_cons, List.filterMap_cons_some (h c List.mem_cons_self).partComponent_text,
        ih fun d hd => h d (List.mem_cons_of_mem _ hd)]

/-- The parts of a written-out component list are its texts. -/
theorem parts_intercalate_text {cs : List Component} (hne : cs ≠ [])
    (h : ∀ c ∈ cs, '/' ∉ c.text) :
    parts (['/'].intercalate (cs.map Component.text)) = cs.map Component.text := by
  refine List.splitOn_intercalate '/' ?_ (by simpa using hne)
  intro t ht
  obtain ⟨c, hc, rfl⟩ := List.mem_map.mp ht
  exact h c hc

/-- In front of a path there is nothing, the root or a `.`. -/
theorem front_eq_cases (p : Path) :
    front p = [] ∨ front p = [.rootDir] ∨ front p = [.curDir] := by
  rw [front]
  split
  · exact Or.inr (Or.inl rfl)
  · split
    · exact Or.inr (Or.inr rfl)
    · exact Or.inl rfl

/-- Reading back a path from its parts: the front is read off the first part, which is not
empty. -/
theorem components_of_parts {q : Path} {part : Name} {rest : List Name}
    (h : parts q = part :: rest) (hne : part ≠ []) :
    components q = (if part = ['.'] then [.curDir] else []) ++
      (part :: rest).filterMap partComponent := by
  have habs : isAbsolute q = false := by
    by_contra habs
    have hhead := head?_parts_of_isAbsolute (by simpa using habs)
    rw [h, List.head?_cons, Option.some.injEq] at hhead
    exact hne hhead
  rw [components, front, habs, if_neg Bool.false_ne_true, body, h, List.head?_cons]
  simp only [Option.some.injEq]

/-- A list of body components is read back from its text. -/
theorem components_ofComponents_body {c : Component} {b : List Component}
    (hb : ∀ d ∈ c :: b, IsBody d) : components (ofComponents (c :: b)) = c :: b := by
  have hc := (hb c List.mem_cons_self).partComponent_text
  have hroot : c :: b ≠ [.rootDir] := by
    intro e
    rw [(List.cons.inj e).1] at hc
    simp [Component.text, partComponent] at hc
  have hne : c.text ≠ [] := by
    intro e
    simp [e, partComponent] at hc
  have hdot : c.text ≠ ['.'] := by
    intro e
    simp [e, partComponent] at hc
  have hparts := parts_intercalate_text (List.cons_ne_nil c b) fun d hd => (hb d hd).not_mem_text
  rw [ofComponents, if_neg hroot, components_of_parts hparts hne, if_neg hdot, ← List.map_cons,
    filterMap_partComponent_text hb, List.nil_append]

/-- A rooted component list is read back from its text. -/
theorem components_ofComponents_root {b : List Component} (hb : ∀ d ∈ b, IsBody d) :
    components (ofComponents (.rootDir :: b)) = .rootDir :: b := by
  cases b with
  | nil => rfl
  | cons c b =>
      have htext : ∀ d ∈ Component.rootDir :: c :: b, '/' ∉ d.text := by
        intro d hd
        rcases List.mem_cons.mp hd with rfl | hd
        · exact List.not_mem_nil
        · exact (hb d hd).not_mem_text
      have hparts := parts_intercalate_text (List.cons_ne_nil _ _) htext
      have habs : isAbsolute (['/'].intercalate ((.rootDir :: c :: b).map Component.text)) = true :=
        by simp [Component.text, List.intercalate, isAbsolute]
      rw [ofComponents, if_neg (by simp), components, front, if_pos habs, body, hparts,
        List.map_cons, List.filterMap_cons_none (by rfl), filterMap_partComponent_text hb]
      rfl

/-- A component list behind a leading dot is read back from its text. -/
theorem components_ofComponents_curDir {b : List Component} (hb : ∀ d ∈ b, IsBody d) :
    components (ofComponents (.curDir :: b)) = .curDir :: b := by
  have htext : ∀ d ∈ Component.curDir :: b, '/' ∉ d.text := by
    intro d hd
    rcases List.mem_cons.mp hd with rfl | hd
    · decide
    · exact (hb d hd).not_mem_text
  have hparts := parts_intercalate_text (List.cons_ne_nil _ _) htext
  have hne : Component.curDir.text ≠ [] := by decide
  rw [ofComponents, if_neg (by simp), components_of_parts hparts hne, if_pos (by rfl),
    List.filterMap_cons_none (by rfl), filterMap_partComponent_text hb]
  rfl

/-- A component list with a proper front is read back from its text. -/
theorem components_ofComponents {f b : List Component}
    (hf : f = [] ∨ f = [.rootDir] ∨ f = [.curDir]) (hb : ∀ c ∈ b, IsBody c) :
    components (ofComponents (f ++ b)) = f ++ b := by
  rcases hf with rfl | rfl | rfl
  · cases b with
    | nil => rfl
    | cons c b => exact components_ofComponents_body hb
  · exact components_ofComponents_root hb
  · exact components_ofComponents_curDir hb

/-- **The parent** of a path has all its components but the last. -/
theorem components_parent {p q : Path} (h : parent p = some q) :
    components q = (components p).dropLast := by
  rw [parent] at h
  split at h
  · exact absurd h (by simp)
  · exact absurd h (by simp)
  · rw [← Option.some.inj h]
    have hbody : ∀ c ∈ body p, IsBody c := fun c hc => isBody_of_mem_body hc
    by_cases hb : body p = []
    · have hcomp : components p = front p := by rw [components, hb, List.append_nil]
      have hnil : (components p).dropLast = [] := by
        rw [hcomp]
        rcases front_eq_cases p with hf | hf | hf <;> rw [hf] <;> rfl
      rw [hnil]
      rfl
    · have hcomp : (components p).dropLast = front p ++ (body p).dropLast := by
        rw [components, List.dropLast_append_of_ne_nil hb]
      rw [hcomp]
      exact components_ofComponents (front_eq_cases p)
        fun c hc => hbody c (List.dropLast_subset _ hc)

/-- A path with an ordinary last component has a parent. -/
theorem exists_parent {p : Path} {name : Name} {cs : List Component}
    (h : components p = cs ++ [.normal name]) : ∃ q, parent p = some q := by
  rw [parent, h, List.getLast?_concat]
  exact ⟨_, rfl⟩

/-! ### Locations -/

/-- Names are followed one after the other. -/
theorem foldl_follow_normal (loc : Location) (ns : List Name) :
    (ns.map Component.normal).foldl follow loc = loc ++ ns := by
  induction ns generalizing loc with
  | nil => simp
  | cons n ns ih => rw [List.map_cons, List.foldl_cons, ih, follow, List.append_assoc]; rfl

/-- The location of anything whose components extend those of a base by ordinary names. -/
theorem resolve_of_components {cwd : Location} {base p : Path} {ns : List Name}
    (h : components p = components base ++ ns.map Component.normal) :
    resolve cwd p = resolve cwd base ++ ns := by
  rw [resolve, h, List.foldl_append, foldl_follow_normal]
  rfl

/-- A plain path is joined to a base component by component. -/
theorem Plain.components_join {base p : Path} (h : Plain p) :
    components (join base p) = components base ++ (names p).map Component.normal := by
  rw [UnixPath.components_join h.front_eq, h.components_eq]

end UnixPath
