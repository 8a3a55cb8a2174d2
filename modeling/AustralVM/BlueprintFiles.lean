import Mathlib.Data.List.Basic

/-!
# The files of a blueprint

`instantiate_from_blueprint` writes the files of an archive under a directory of the
instance.  Both the entries' names and the name in the metadata are joined to a
path, and joining an absolute path gives that path alone.
-/

namespace AustralVM.Host

open List

abbrev PathText := List Char

abbrev IsAbsolute (path : PathText) : Prop := path.head? = some '/'

abbrev HasParentReference (path : PathText) : Prop := ['.', '.'] ∈ path.splitOn '/'

/-- `Path::join`. -/
def join (base path : PathText) : PathText :=
  if IsAbsolute path then path
  else if base = [] ∨ base.getLast? = some '/' then base ++ path
  else base ++ '/' :: path

def descend (place : List PathText) (name : PathText) : List PathText :=
  if name = [] ∨ name = ['.'] then place
  else if name = ['.', '.'] then place.dropLast
  else place ++ [name]

/-- The names from the root to where a path leads from a working directory. -/
def locate (cwd : List PathText) (path : PathText) : List PathText :=
  (path.splitOn '/').foldl descend (if IsAbsolute path then [] else cwd)

inductive Access
  | createDirAll (path : PathText)
  -- `create_dir_all` of the path's parent
  | createParent (path : PathText)
  | write (path : PathText)
  deriving DecidableEq

def withSlashes (path : PathText) : PathText :=
  path.map fun char => if char = '\\' then '/' else char

section
variable (fs : List Access → Access → Except String Unit)

/-- The loop over the archive's entries, after what has been asked of the file system
before; its answer may depend on that. -/
def materialize (dir : PathText) (past : List Access) :
    List PathText → List Access × Except String Unit
  | [] => (past, .ok ())
  | entry :: entries =>
    let rel := withSlashes entry
    let shown := String.ofList rel
    if HasParentReference rel then
      (past, .error s!"UK-4001 blueprint rejected: path traversal in archive entry '{shown}'")
    else
      let dest := join dir rel
      let made := past ++ [.createParent dest]
      let written := made ++ [.write dest]
      match fs past (.createParent dest), fs made (.write dest) with
      | .error error, _ => (made, .error s!"materialize {shown}: {error}")
      | .ok (), .error error => (written, .error s!"materialize {shown}: {error}")
      | .ok (), .ok () => materialize dir written entries

def instanceDir (parentDir name instanceId : PathText) : PathText :=
  join parentDir (name ++ '-' :: instanceId)

/-- The part of `instantiate_from_blueprint` that makes the instance's files. -/
def instantiateFiles (parentDir name instanceId : PathText) (entries : List PathText) :
    List Access × Except String Unit :=
  let dir := instanceDir parentDir name instanceId
  match fs [] (.createDirAll dir) with
  | .error error => ([.createDirAll dir], .error s!"materialize dir: {error}")
  | .ok () => materialize fs dir [.createDirAll dir] entries

end

/-- The entries in front of the first one that is rejected. -/
def acceptedEntries (entries : List PathText) : List PathText :=
  (entries.map withSlashes).takeWhile fun rel => ¬ HasParentReference rel

theorem splitOn_append_slash (base path : PathText) :
    (base ++ '/' :: path).splitOn '/' = base.splitOn '/' ++ path.splitOn '/' :=
  splitOnP_append_cons base path rfl

theorem locate_join (relative : ¬ IsAbsolute path) :
    locate cwd (join base path) = (path.splitOn '/').foldl descend (locate cwd base) := by
  have joined (before : PathText) (start : IsAbsolute (before ++ '/' :: path) ↔ IsAbsolute base) :
      locate cwd (before ++ '/' :: path) = (path.splitOn '/').foldl descend
        ((before.splitOn '/').foldl descend (if IsAbsolute base then [] else cwd)) := by
    simp [locate, splitOn_append_slash, start]
  rw [join, if_neg relative]
  split
  next ends =>
    rcases ends with rfl | ends
    · rw [nil_append, locate, if_neg relative]
      rfl
    · obtain ⟨before, rfl⟩ := getLast?_eq_some_iff.mp ends
      have empty : splitOn '/' ([] : PathText) = [[]] := rfl
      rw [append_assoc, singleton_append, joined before (by cases before <;> rfl), locate,
        splitOn_append_slash before []]
      simp [empty, descend]
  next ends =>
    rw [joined base, locate]
    cases base with
    | nil => exact absurd (.inl rfl) ends
    | cons => rfl

theorem prefix_descend (names : List PathText) (place : List PathText)
    (inside : ['.', '.'] ∉ names) : place <+: names.foldl descend place := by
  induction names generalizing place with
  | nil => exact prefix_rfl
  | cons _ _ ih =>
    refine .trans ?_ (ih _ (not_mem_of_not_mem_cons inside))
    rw [descend, if_neg (ne_of_not_mem_cons inside).symm]
    split
    next => exact prefix_rfl
    next => exact prefix_append _ _

theorem locate_prefix_join (relative : ¬ IsAbsolute path) (inside : ¬ HasParentReference path) :
    locate cwd base <+: locate cwd (join base path) :=
  locate_join relative ▸ prefix_descend _ _ inside

def entryAccesses (dir : PathText) (entries : List PathText) : List Access :=
  (acceptedEntries entries).flatMap fun rel => [.createParent (join dir rel), .write (join dir rel)]

theorem mem_entryAccesses : .write path ∈ entryAccesses dir entries ↔
    ∃ rel ∈ acceptedEntries entries, path = join dir rel := by
  simp [entryAccesses]

theorem entryAccesses_cons : entryAccesses dir (entry :: entries) =
    let rel := withSlashes entry
    if HasParentReference rel then []
    else [.createParent (join dir rel)] ++
      ([.write (join dir rel)] ++ entryAccesses dir entries) := by
  by_cases HasParentReference (withSlashes entry) <;>
    simp [*, entryAccesses, acceptedEntries]

/-- A run that fails has made the first of the accesses. -/
theorem materialize_follows :
    (materialize fs dir past entries).1 <+: past ++ entryAccesses dir entries := by
  induction entries generalizing past with
  | nil => exact prefix_append past _
  | cons _ _ ih =>
    simp only [materialize, entryAccesses_cons]
    split
    next => simp
    next =>
      split
      next => simp
      next => simp
      next =>
        rw [← append_assoc, ← append_assoc]
        exact ih

theorem materialize_of_ok : (materialize (fun _ _ => .ok ()) dir past entries).1 =
    past ++ entryAccesses dir entries := by
  induction entries generalizing past with
  | nil => simp [materialize, entryAccesses, acceptedEntries]
  | cons _ _ ih =>
    simp only [materialize, entryAccesses_cons]
    split
    next => simp
    next => rw [ih, append_assoc, append_assoc]

/-- Whatever the file system answers, every file is written inside the instance's
directory, exactly if the entries in front of the first one with a parent reference
are relative or already lie there.  The directory lies inside the given one if the
name is relative and has no parent reference. -/
theorem writes_inside_iff (cwd : List PathText) (parentDir name instanceId : PathText)
    (entries : List PathText) :
    let dir := instanceDir parentDir name instanceId
    ((∀ fs path, .write path ∈ (instantiateFiles fs parentDir name instanceId entries).1 →
        locate cwd dir <+: locate cwd path) ↔
      ∀ rel ∈ acceptedEntries entries, IsAbsolute rel → locate cwd dir <+: locate cwd rel) ∧
    (¬ IsAbsolute name → ¬ HasParentReference (name ++ '-' :: instanceId) →
      locate cwd parentDir <+: locate cwd dir) := by
  refine ⟨⟨fun inside rel accepted absolute => ?_, fun inside fs path member => ?_⟩,
    fun relative noParent => locate_prefix_join ?_ noParent⟩
  · apply inside fun _ _ => .ok ()
    rw [instantiateFiles, materialize_of_ok]
    exact mem_append_right _ (mem_entryAccesses.mpr ⟨rel, accepted, (if_pos absolute).symm⟩)
  · rw [instantiateFiles] at member
    split at member
    next => simp at member
    next =>
      have written := (mem_append.mp (materialize_follows.subset member)).resolve_left (by simp)
      obtain ⟨rel, accepted, rfl⟩ := mem_entryAccesses.mp written
      by_cases absolute : IsAbsolute rel
      · rw [join, if_pos absolute]
        exact inside rel accepted absolute
      · have noParent := all_eq_true.mp all_takeWhile rel accepted
        exact locate_prefix_join absolute (of_decide_eq_true noParent)
  · cases name with
    | nil => simp
    | cons => exact relative

/-- One entry of the archive is absolute, and the name in its metadata leads out of the
given directory. -/
theorem blueprint_writes_outside :
    let made := instantiateFiles (fun _ _ => .ok ()) "/srv".toList "../tmp/app".toList ['1']
      ["/etc/passwd".toList]
    .write "/etc/passwd".toList ∈ made.1 ∧
    locate [] (instanceDir "/srv".toList "../tmp/app".toList ['1']) =
      ["tmp".toList, "app-1".toList] := by
  decide +kernel

end AustralVM.Host
