import Whyrun.Library.ByteText

/-!
Paths as `std::filesystem::path` treats them on POSIX: joining two paths
and the lexical normal form. A path is a byte string; its elements are the
names between separators, with an empty last element for a trailing
separator.
-/

namespace LexicalPath

open ByteText

def separator : UInt8 := 47

def dot : Bytes := lit "."

def dotDot : Bytes := lit ".."

def isAbsolute (path : Bytes) : Bool := path.head? = some separator

/-- The names of a path that are not empty. -/
def names (path : Bytes) : List Bytes := (path.splitOn separator).filter (· ≠ [])

/-- The names of a path after its root directory; a trailing separator
gives an empty last name. -/
def elements (path : Bytes) : List Bytes :=
  if path.getLast? = some separator ∧ names path ≠ [] then names path ++ [[]] else names path

/-- A path under construction: `trailing` says that a separator follows the
last name, so that the path has no filename. -/
structure Partial where
  rooted : Bool
  names : List Bytes
  trailing : Bool
  deriving DecidableEq

def Partial.hasFilename (p : Partial) : Bool := !p.names.isEmpty && !p.trailing

/-- `p /= name` for a name without separators; the empty name only adds a
separator after a filename. -/
def Partial.append (p : Partial) (name : Bytes) : Partial :=
  if name = [] then { p with trailing := p.trailing || p.hasFilename }
  else { p with names := p.names ++ [name], trailing := false }

/-- Drop the last name, keeping the separator before it. -/
def Partial.removeLast (p : Partial) : Partial :=
  { p with names := p.names.dropLast, trailing := !p.names.dropLast.isEmpty }

/-- One element of the path added to the normal form so far. -/
def Partial.step (p : Partial) (name : Bytes) : Partial :=
  if name = dotDot then
    match p.names.getLast? with
    | none => if p.rooted then p else p.append dotDot
    | some last => if last = dotDot then p.append dotDot else p.removeLast
  else if name = dot then p.append []
  else p.append name

def Partial.render (p : Partial) : Bytes :=
  (if p.rooted then [separator] else []) ++ [separator].intercalate p.names ++
    (if p.trailing then [separator] else [])

/-- `path::lexically_normal`. -/
def lexicallyNormal (path : Bytes) : Bytes :=
  if path = [] then []
  else
    let result := (elements path).foldl Partial.step ⟨isAbsolute path, [], false⟩
    let result :=
      if result.names.getLast? = some dotDot then { result with trailing := false }
      else result
    if result.render = [] then dot else result.render

/-- `base / path` for a relative `path`: a separator is put between them
when `base` ends with a filename. -/
def join (base path : Bytes) : Bytes :=
  if base = [] ∨ base.getLast? = some separator then base ++ path
  else base ++ separator :: path

example : lexicallyNormal (lit "/a//b/./../c/") = lit "/a/c/" := by decide

example : lexicallyNormal (lit "a/..") = lit "." := by decide

example : lexicallyNormal (lit "../a/../..") = lit "../.." := by decide

/-! ### Names -/

theorem elements_eq (path : Bytes) :
    elements path = names path ∨ elements path = names path ++ [[]] := by
  rw [elements]
  split
  · exact .inr rfl
  · exact .inl rfl

theorem names_append_separator (a b : Bytes) :
    names (a ++ separator :: b) = names a ++ names b := by
  rw [names, List.splitOn_append_cons_self, List.filter_append]
  rfl

@[simp] theorem names_nil : names [] = [] := rfl

theorem names_append_of_getLast {a : Bytes} (h : a.getLast? = some separator) (b : Bytes) :
    names (a ++ b) = names a ++ names b := by
  obtain ⟨init, rfl⟩ := List.getLast?_eq_some_iff.mp h
  rw [List.append_assoc, List.singleton_append, names_append_separator, names_append_separator,
    names_nil, List.append_nil]

theorem names_join (base path : Bytes) : names (join base path) = names base ++ names path := by
  unfold join
  split
  · rename_i h
    rcases h with rfl | h
    · rfl
    · exact names_append_of_getLast h path
  · exact names_append_separator base path

theorem separator_notMem_of_mem_splitOn {path name : Bytes}
    (h : name ∈ path.splitOn separator) : separator ∉ name := by
  induction path generalizing name with
  | nil =>
      rw [List.splitOn_nil, List.mem_singleton] at h
      simp [h]
  | cons b path ih =>
      rw [List.splitOn_cons_eq_if_modifyHead] at h
      split at h
      · rcases List.mem_cons.mp h with rfl | h
        · simp
        · exact ih h
      · rename_i hb
        obtain ⟨first, rest, hsplit⟩ :=
          List.exists_cons_of_ne_nil (List.splitOn_ne_nil separator path)
        rw [hsplit, List.modifyHead_cons] at h
        rcases List.mem_cons.mp h with rfl | h
        · have hfirst : separator ∉ first := ih (by simp [hsplit])
          simp only [List.mem_cons, not_or]
          exact ⟨fun heq => hb (by simp [heq]), hfirst⟩
        · exact ih (by simp [hsplit, h])

theorem names_spec {path name : Bytes} (h : name ∈ names path) :
    name ≠ [] ∧ separator ∉ name := by
  rw [names, List.mem_filter, decide_eq_true_eq] at h
  exact ⟨h.2, separator_notMem_of_mem_splitOn h.1⟩

theorem splitOn_append_of_notMem {text : Bytes} (h : separator ∉ text) (tail : Bytes) :
    (text ++ tail).splitOn separator = (tail.splitOn separator).modifyHead (text ++ ·) := by
  obtain ⟨first, rest, hsplit⟩ := List.exists_cons_of_ne_nil (List.splitOn_ne_nil separator tail)
  rw [hsplit, List.modifyHead_cons]
  induction text with
  | nil => exact hsplit
  | cons b text ih =>
      simp only [List.mem_cons, not_or] at h
      rw [List.cons_append, List.splitOn_cons_eq_if_modifyHead, if_neg (by simpa using Ne.symm h.1),
        ih h.2]
      rfl

/-- A path that begins with text of one name begins with a name that has it. -/
theorem names_of_prefix {text path : Bytes} (hne : text ≠ []) (hsep : separator ∉ text)
    (h : text <+: path) : ∃ rest more, names path = (text ++ rest) :: more := by
  obtain ⟨tail, rfl⟩ := h
  obtain ⟨first, rest, hsplit⟩ := List.exists_cons_of_ne_nil (List.splitOn_ne_nil separator tail)
  refine ⟨first, rest.filter (· ≠ []), ?_⟩
  rw [names, splitOn_append_of_notMem hsep, hsplit, List.modifyHead_cons,
    List.filter_cons_of_pos (by simp [hne])]

/-! ### Absolute paths -/

/-- A component that the normal form of an absolute path keeps. -/
structure Plain (name : Bytes) : Prop where
  nonempty : name ≠ []
  noDot : name ≠ dot
  noDotDot : name ≠ dotDot
  noSeparator : separator ∉ name

/-- An absolute path without empty, `.` or `..` components and without a
separator at its end, the root excepted. -/
def rootedText (ns : List Bytes) : Bytes := separator :: [separator].intercalate ns

def Canonical (path : Bytes) : Prop := ∃ ns, (∀ n ∈ ns, Plain n) ∧ path = rootedText ns

/-- One component added to the names below the root. -/
def climb (ns : List Bytes) (name : Bytes) : List Bytes :=
  if name = dotDot then ns.dropLast
  else if name = dot ∨ name = [] then ns
  else ns ++ [name]

/-- The names of the normal form of an absolute path. -/
def normalNames (path : Bytes) : List Bytes := (names path).foldl climb []

theorem climb_append_empty (ns : List Bytes) : climb ns [] = ns := by
  simp [climb, dotDot, lit]

theorem climb_plain {ns : List Bytes} (h : ∀ n ∈ ns, Plain n) {name : Bytes}
    (hne : name ≠ []) (hsep : separator ∉ name) : ∀ n ∈ climb ns name, Plain n := by
  unfold climb
  split
  · exact fun n hn => h n (List.mem_of_mem_dropLast hn)
  · rename_i hdotDot
    split
    · exact h
    · rename_i hdot
      rw [not_or] at hdot
      intro n hn
      rcases List.mem_append.mp hn with hn | hn
      · exact h n hn
      · rw [List.mem_singleton] at hn
        subst hn
        exact ⟨hne, hdot.1, hdotDot, hsep⟩

theorem foldl_climb_plain {ns more : List Bytes} (h : ∀ n ∈ ns, Plain n)
    (hmore : ∀ n ∈ more, n ≠ [] ∧ separator ∉ n) : ∀ n ∈ more.foldl climb ns, Plain n := by
  induction more generalizing ns with
  | nil => exact h
  | cons name more ih =>
      have hname := hmore name (by simp)
      exact ih (climb_plain h hname.1 hname.2) fun n hn => hmore n (by simp [hn])

theorem normalNames_plain (path : Bytes) : ∀ n ∈ normalNames path, Plain n :=
  foldl_climb_plain (by simp) fun _ h => names_spec h

/-- Plain names are only added. -/
theorem foldl_climb_of_plain {ns more : List Bytes} (h : ∀ n ∈ more, Plain n) :
    more.foldl climb ns = ns ++ more := by
  induction more generalizing ns with
  | nil => simp
  | cons name more ih =>
      have hname : Plain name := h name (by simp)
      have hclimb : climb ns name = ns ++ [name] := by
        rw [climb, if_neg hname.noDotDot, if_neg (by simp [hname.noDot, hname.nonempty])]
      rw [List.foldl_cons, hclimb, ih fun n hn => h n (by simp [hn]), List.append_assoc]
      rfl

theorem names_rootedText {ns : List Bytes} (h : ∀ n ∈ ns, Plain n) :
    names (rootedText ns) = ns := by
  have hsplit := names_append_separator [] ([separator].intercalate ns)
  rw [rootedText, ← List.nil_append (separator :: _), hsplit, names_nil, List.nil_append]
  by_cases hns : ns = []
  · subst hns
    rfl
  · rw [names, List.splitOn_intercalate separator (fun n hn => (h n hn).noSeparator) hns]
    exact List.filter_eq_self.mpr fun n hn => by simp [(h n hn).nonempty]

/-- Joining to a canonical path goes on from its names. -/
theorem normalNames_join_rootedText {ns : List Bytes} (h : ∀ n ∈ ns, Plain n) (path : Bytes) :
    normalNames (join (rootedText ns) path) = (names path).foldl climb ns := by
  rw [normalNames, names_join, names_rootedText h, List.foldl_append, foldl_climb_of_plain h,
    List.nil_append]

theorem normalNames_append_separator (base path : Bytes) :
    normalNames (base ++ separator :: path) = (names path).foldl climb (normalNames base) := by
  rw [normalNames, names_append_separator, List.foldl_append]
  rfl

theorem isAbsolute_append {base : Bytes} (h : isAbsolute base = true) (path : Bytes) :
    isAbsolute (base ++ path) = true := by
  cases base with
  | nil => contradiction
  | cons b base => exact h

theorem isAbsolute_join {base : Bytes} (h : isAbsolute base = true) (path : Bytes) :
    isAbsolute (join base path) = true := by
  unfold join
  split
  · exact isAbsolute_append h path
  · exact isAbsolute_append h _

theorem isAbsolute_rootedText (ns : List Bytes) : isAbsolute (rootedText ns) = true := rfl

theorem Canonical.isAbsolute {path : Bytes} (h : Canonical path) : isAbsolute path = true := by
  obtain ⟨ns, -, rfl⟩ := h
  rfl

/-! ### Paths under construction -/

theorem climb_noDotDot {ns : List Bytes} (h : dotDot ∉ ns) (name : Bytes) :
    dotDot ∉ climb ns name := by
  unfold climb
  split
  · exact fun hmem => h (List.mem_of_mem_dropLast hmem)
  · rename_i hname
    split
    · exact h
    · simp only [List.mem_append, List.mem_singleton, not_or]
      exact ⟨h, Ne.symm hname⟩

theorem Partial.rooted_step (p : Partial) (name : Bytes) : (p.step name).rooted = p.rooted := by
  unfold Partial.step Partial.append Partial.removeLast
  repeat' split
  all_goals rfl

theorem Partial.rooted_foldl (p : Partial) (es : List Bytes) :
    (es.foldl Partial.step p).rooted = p.rooted := by
  induction es generalizing p with
  | nil => rfl
  | cons name es ih => exact (ih (p.step name)).trans (p.rooted_step name)

/-- Below the root, or below the first name of a relative path, a component
acts on the names alone. -/
theorem Partial.names_step {p : Partial} (hdotDot : dotDot ∉ p.names)
    (h : p.rooted = true ∨ p.names ≠ []) (name : Bytes) :
    (p.step name).names = climb p.names name := by
  unfold Partial.step climb
  split
  · cases hlast : p.names.getLast? with
    | none =>
        rw [List.getLast?_eq_none_iff] at hlast
        have hroot : p.rooted = true := h.resolve_right (not_not_intro hlast)
        simp [hroot, hlast]
    | some last =>
        have hne : last ≠ dotDot := by
          rintro rfl
          exact hdotDot (List.mem_of_getLast? hlast)
        simp only [if_neg hne]
        rfl
  · split
    · rename_i hdot
      rw [if_pos (.inl hdot)]
      rfl
    · rename_i hdot
      by_cases hne : name = []
      · rw [if_pos (.inr hne), hne]
        rfl
      · rw [if_neg (by simp [hdot, hne]), Partial.append, if_neg hne]

theorem Partial.trailing_step {p : Partial} (h : p.trailing = true → p.names ≠ [])
    (name : Bytes) : (p.step name).trailing = true → (p.step name).names ≠ [] := by
  have happend : ∀ name, (p.append name).trailing = true → (p.append name).names ≠ [] := by
    intro name
    unfold Partial.append
    split
    · intro htrailing
      rw [Bool.or_eq_true] at htrailing
      rcases htrailing with htrailing | hfilename
      · exact h htrailing
      · simp only [Partial.hasFilename, Bool.and_eq_true, Bool.not_eq_true',
          List.isEmpty_eq_false_iff] at hfilename
        exact hfilename.1
    · simp
  unfold Partial.step
  split
  · split
    · split
      · exact h
      · exact happend _
    · split
      · exact happend _
      · simp [Partial.removeLast]
  · split
    · exact happend _
    · exact happend _

/-- What holds of the normal form of an absolute path under construction. -/
structure Partial.Rooted (p : Partial) : Prop where
  rooted : p.rooted = true
  noDotDot : dotDot ∉ p.names
  trailing : p.trailing = true → p.names ≠ []

theorem Partial.Rooted.foldl {p : Partial} (h : p.Rooted) (es : List Bytes) :
    (es.foldl Partial.step p).Rooted ∧
      (es.foldl Partial.step p).names = es.foldl climb p.names := by
  induction es generalizing p with
  | nil => exact ⟨h, rfl⟩
  | cons name es ih =>
      have hnames := Partial.names_step h.noDotDot (.inl h.rooted) name
      have hstep : (p.step name).Rooted :=
        ⟨(p.rooted_step name).trans h.rooted, hnames ▸ climb_noDotDot h.noDotDot name,
          Partial.trailing_step h.trailing name⟩
      rw [List.foldl_cons, List.foldl_cons, ← hnames]
      exact ih hstep

/-- The empty element of a trailing separator changes no name. -/
theorem foldl_climb_elements (ns : List Bytes) (path : Bytes) :
    (elements path).foldl climb ns = (names path).foldl climb ns := by
  rcases elements_eq path with h | h
  · rw [h]
  · rw [h, List.foldl_append, List.foldl_cons, climb_append_empty]
    rfl

/-! ### The normal form of an absolute path -/

/-- The normal form of an absolute path, which may end with a separator. -/
theorem lexicallyNormal_of_isAbsolute {path : Bytes} (h : isAbsolute path = true) :
    lexicallyNormal path = rootedText (normalNames path) ∨
      (normalNames path ≠ [] ∧
        lexicallyNormal path = rootedText (normalNames path) ++ [separator]) := by
  have hne : path ≠ [] := by
    rintro rfl
    contradiction
  have hstart : (⟨isAbsolute path, [], false⟩ : Partial).Rooted := ⟨h, by simp, by simp⟩
  obtain ⟨⟨hroot, hdotDot, htrailing⟩, hnames⟩ := hstart.foldl (elements path)
  rw [foldl_climb_elements] at hnames
  change _ = normalNames path at hnames
  unfold lexicallyNormal
  rw [if_neg hne]
  generalize (elements path).foldl Partial.step ⟨isAbsolute path, [], false⟩ = result at *
  have hlast : result.names.getLast? ≠ some dotDot := fun hlast =>
    hdotDot (List.mem_of_getLast? hlast)
  have hrender : result.render ≠ [] := by simp [Partial.render, hroot]
  dsimp only
  rw [if_neg hlast, if_neg hrender]
  cases htrail : result.trailing with
  | false => exact .inl (by simp [Partial.render, hroot, htrail, hnames, rootedText])
  | true =>
      refine .inr ⟨hnames ▸ htrailing htrail, ?_⟩
      simp [Partial.render, hroot, htrail, hnames, rootedText]

theorem getLast?_rootedText {ns : List Bytes} (h : ∀ n ∈ ns, Plain n) (hns : ns ≠ []) :
    (rootedText ns).getLast? ≠ some separator := by
  induction ns with
  | nil => exact absurd rfl hns
  | cons n ns ih =>
      have hn : Plain n := h n (by simp)
      cases ns with
      | nil =>
          intro hlast
          rw [rootedText, List.intercalate_singleton,
            List.getLast?_cons_of_ne_nil hn.nonempty] at hlast
          exact hn.noSeparator (List.mem_of_getLast? hlast)
      | cons m ns =>
          have htext : rootedText (n :: m :: ns) = (separator :: n) ++ rootedText (m :: ns) := by
            simp [rootedText, List.intercalate_cons_cons]
          rw [htext, List.getLast?_append_of_ne_nil _ (by simp [rootedText])]
          exact ih (fun n hn => h n (by simp [hn])) (by simp)

/-! ### The first name of a relative path -/

/-- Some `..` of the components leaves the `depth` names that come before
them. -/
def climbsOut : ℕ → List Bytes → Bool
  | _, [] => false
  | depth, name :: rest =>
      if name = dotDot then depth ≤ 1 || climbsOut (depth - 1) rest
      else if name = dot ∨ name = [] then climbsOut depth rest
      else climbsOut (depth + 1) rest

theorem climb_keeps {first name : Bytes} {ns more : List Bytes}
    (h : climbsOut (first :: ns).length (name :: more) = false) :
    ∃ ns', climb (first :: ns) name = first :: ns' ∧
      climbsOut (first :: ns').length more = false := by
  simp only [climbsOut] at h
  unfold climb
  split at h
  · rename_i hname
    rw [if_pos hname]
    cases ns with
    | nil => simp at h
    | cons m ns =>
        rw [Bool.or_eq_false_iff] at h
        refine ⟨(m :: ns).dropLast, rfl, ?_⟩
        simpa using h.2
  · rename_i hname
    rw [if_neg hname]
    split at h
    · rename_i hdot
      rw [if_pos hdot]
      exact ⟨ns, rfl, h⟩
    · rename_i hdot
      rw [if_neg hdot]
      exact ⟨ns ++ [name], rfl, by simpa using h⟩

/-- A path that does not climb out keeps its first name. -/
theorem Partial.foldl_keeps {p : Partial} {first : Bytes} {ns es : List Bytes}
    (hnames : p.names = first :: ns) (hdotDot : dotDot ∉ p.names)
    (h : climbsOut p.names.length es = false) :
    ∃ ns', (es.foldl Partial.step p).names = first :: ns' ∧
      dotDot ∉ (es.foldl Partial.step p).names := by
  induction es generalizing p ns with
  | nil => exact ⟨ns, hnames, hdotDot⟩
  | cons name es ih =>
      have hstep := Partial.names_step hdotDot (.inr (by simp [hnames])) name
      rw [hnames] at h
      obtain ⟨ns', hclimb, hmore⟩ := climb_keeps h
      rw [← hnames, ← hstep] at hclimb
      exact ih hclimb (hstep ▸ climb_noDotDot hdotDot name) (hclimb ▸ hmore)

theorem climbsOut_append_empty (depth : ℕ) (ns : List Bytes) :
    climbsOut depth (ns ++ [[]]) = climbsOut depth ns := by
  induction ns generalizing depth with
  | nil => simp [climbsOut, dotDot, lit]
  | cons name ns ih => simp [climbsOut, ih]

theorem climbsOut_elements (depth : ℕ) (path : Bytes) :
    climbsOut depth (elements path) = climbsOut depth (names path) := by
  rcases elements_eq path with h | h
  · rw [h]
  · rw [h, climbsOut_append_empty]

theorem prefix_lexicallyNormal {path first : Bytes} {more : List Bytes}
    (hrelative : isAbsolute path = false) (hnames : names path = first :: more)
    (hfirst : Plain first) (h : climbsOut 0 (names path) = false) :
    first <+: lexicallyNormal path := by
  have hne : path ≠ [] := by
    rintro rfl
    contradiction
  obtain ⟨es, helements, hes⟩ : ∃ es, elements path = first :: es ∧ climbsOut 1 es = false := by
    have hout := climbsOut_elements 0 path
    obtain ⟨es, hes⟩ : ∃ es, elements path = first :: es := by
      rcases elements_eq path with heq | heq
      · exact ⟨more, heq.trans hnames⟩
      · exact ⟨more ++ [[]], by rw [heq, hnames]; rfl⟩
    refine ⟨es, hes, ?_⟩
    rw [h, hes, climbsOut, if_neg hfirst.noDotDot,
      if_neg (by simp [hfirst.noDot, hfirst.nonempty])] at hout
    exact hout
  have hstart : (⟨false, [], false⟩ : Partial).step first = ⟨false, [first], false⟩ := by
    rw [Partial.step, if_neg hfirst.noDotDot, if_neg hfirst.noDot, Partial.append,
      if_neg hfirst.nonempty]
    rfl
  have hstartDotDot : dotDot ∉ [first] := by simpa using Ne.symm hfirst.noDotDot
  obtain ⟨ns, hresult, hdotDot⟩ :=
    Partial.foldl_keeps (p := ⟨false, [first], false⟩) rfl hstartDotDot hes
  have hroot := Partial.rooted_foldl ⟨false, [first], false⟩ es
  unfold lexicallyNormal
  rw [if_neg hne, helements, hrelative, List.foldl_cons, hstart]
  generalize es.foldl Partial.step ⟨false, [first], false⟩ = result at *
  have hlast : result.names.getLast? ≠ some dotDot := fun hlast =>
    hdotDot (List.mem_of_getLast? hlast)
  have hprefix : first <+: [separator].intercalate result.names := by
    rw [hresult]
    cases ns with
    | nil => simp
    | cons m ns => exact ⟨_, by rw [List.intercalate_cons_cons, List.append_assoc]⟩
  have hrender : first <+: result.render := by
    simp only [Partial.render, hroot, Bool.false_eq_true, if_false, List.nil_append]
    exact hprefix.trans (List.prefix_append _ _)
  have hrenderNe : result.render ≠ [] := by
    intro hnil
    rw [hnil, List.prefix_nil] at hrender
    exact hfirst.nonempty hrender
  dsimp only
  rw [if_neg hlast, if_neg hrenderNe]
  exact hrender

end LexicalPath
