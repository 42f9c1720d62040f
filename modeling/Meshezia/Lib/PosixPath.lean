import Mathlib.Data.List.Basic

/-!
# Absolute paths

A path is a list of characters, of which `slash` and `dot` have a meaning; a directory is the list
of the names on the way to it from the root.  Each segment of a path stays, goes up or goes down
(`enter`), and the path leads where its segments do (`walk`).  The path of a directory is
`render`.

`normalize`, `join` and `resolve` are those of Node's `path.posix` for absolute paths.  They walk:

    Absolute cwd → resolve cwd p = render (walk [] (absolutePath cwd p))     (resolve_eq)
    Names dir → resolve cwd (join (render dir) p) = render (walk dir p)      (resolve_join)

For a directory with a name the test `p.startsWith(dir + '/')` on the path of another one says that
it is below it (`startsWith_iff`).
-/

namespace Meshezia.PosixPath

variable {α : Type} [DecidableEq α] (slash dot : α)

/-! ## The tree -/

/-- Where a segment leads. -/
def enter (dir : List (List α)) (seg : List α) : List (List α) :=
  if seg = [] ∨ seg = [dot] then dir
  else if seg = [dot, dot] then dir.dropLast
  else dir ++ [seg]

/-- Where a path leads. -/
def walk (dir : List (List α)) (path : List α) : List (List α) :=
  (path.splitOn slash).foldl (enter dot) dir

def render (dir : List (List α)) : List α := slash :: [slash].intercalate dir

/-- What a file can be called. -/
structure IsName (name : List α) : Prop where
  ne_nil : name ≠ []
  slash_free : slash ∉ name
  ne_dot : name ≠ [dot]
  ne_dots : name ≠ [dot, dot]

def Names (dir : List (List α)) : Prop := ∀ name ∈ dir, IsName slash dot name

/-- `names` is inside the directory, which is not the root. -/
def Below (dir names : List (List α)) : Prop := dir ≠ [] ∧ dir <+: names ∧ dir ≠ names

instance (dir names : List (List α)) : Decidable (Below dir names) :=
  inferInstanceAs (Decidable (_ ∧ _ ∧ _))

/-! ## The functions -/

/-- `normalizeString` of an absolute path. -/
def normalizeString (path : List α) : List α := [slash].intercalate (walk slash dot [] path)

/-- `normalize` keeps a slash at the end. -/
def normalize (path : List α) : List α :=
  if normalizeString slash dot path = [] then [slash]
  else if path.getLast? = some slash then slash :: (normalizeString slash dot path ++ [slash])
  else slash :: normalizeString slash dot path

/-- `join` leaves out an empty argument. -/
def join (a b : List α) : List α :=
  if b = [] then normalize slash dot a else normalize slash dot (a ++ slash :: b)

def absolutePath (cwd path : List α) : List α :=
  if path.head? = some slash then path else cwd ++ slash :: path

def resolve (cwd path : List α) : List α :=
  slash :: normalizeString slash dot (absolutePath slash cwd path ++ [slash])

/-! ## Walks -/

section
variable {slash dot} {dir : List (List α)}

@[simp] theorem walk_nil : walk slash dot dir [] = dir := by
  simp [walk, enter]

theorem walk_append (a b : List α) :
    walk slash dot dir (a ++ slash :: b) = walk slash dot (walk slash dot dir a) b := by
  unfold walk
  rw [List.splitOn_append_cons_self, List.foldl_append]

@[simp] theorem walk_slash (path : List α) :
    walk slash dot dir (slash :: path) = walk slash dot dir path := by
  have h : walk slash dot dir ([] ++ slash :: path) =
      walk slash dot (walk slash dot dir []) path := walk_append [] path
  rwa [List.nil_append, walk_nil] at h

@[simp] theorem walk_concat (path : List α) :
    walk slash dot dir (path ++ [slash]) = walk slash dot dir path := by
  rw [walk_append, walk_nil]

theorem enter_name {name : List α} (h : IsName slash dot name) :
    enter dot dir name = dir ++ [name] := by
  unfold enter
  rw [if_neg (not_or.mpr ⟨h.ne_nil, h.ne_dot⟩), if_neg h.ne_dots]

theorem foldl_enter_names {names : List (List α)} (h : Names slash dot names) :
    names.foldl (enter dot) dir = dir ++ names := by
  induction names generalizing dir with
  | nil => simp
  | cons name rest ih =>
    rw [List.foldl_cons, enter_name (h name (by simp)), ih fun n hn => h n (by simp [hn])]
    simp

/-- The path of names leads down by them. -/
theorem walk_intercalate {names : List (List α)} (h : Names slash dot names) :
    walk slash dot dir ([slash].intercalate names) = dir ++ names := by
  by_cases hnil : names = []
  · subst hnil
    simp [List.intercalate]
  · unfold walk
    rw [List.splitOn_intercalate slash (fun n hn => (h n hn).slash_free) hnil]
    exact foldl_enter_names h

theorem walk_render {names : List (List α)} (h : Names slash dot names) :
    walk slash dot [] (render slash names) = names := by
  rw [render, walk_slash, walk_intercalate h, List.nil_append]

theorem slash_free_of_mem_splitOn {path seg : List α} (h : seg ∈ path.splitOn slash) :
    slash ∉ seg := by
  induction path generalizing seg with
  | nil =>
    simp at h
    simp [h]
  | cons c rest ih =>
    rw [List.splitOn_cons_eq_if_modifyHead] at h
    split at h
    · rcases List.mem_cons.mp h with rfl | h
      · simp
      · exact ih h
    · rename_i hc
      obtain ⟨first, others, hsplit⟩ := List.exists_cons_of_ne_nil (List.splitOn_ne_nil slash rest)
      rw [hsplit, List.modifyHead_cons] at h
      rcases List.mem_cons.mp h with rfl | h
      · have hfirst : slash ∉ first := ih (by simp [hsplit])
        have hne : slash ≠ c := fun he => hc (by simp [he])
        simp [hne, hfirst]
      · exact ih (by simp [hsplit, h])

theorem names_enter (h : Names slash dot dir) {seg : List α} (hseg : slash ∉ seg) :
    Names slash dot (enter dot dir seg) := by
  unfold enter
  split
  · exact h
  · rename_i hstay
    split
    · exact fun n hn => h n ((List.dropLast_subset dir) hn)
    · rename_i hup
      intro n hn
      rcases List.mem_append.mp hn with hn | hn
      · exact h n hn
      · rw [List.mem_singleton.mp hn]
        exact ⟨fun he => hstay (Or.inl he), hseg, fun he => hstay (Or.inr he), hup⟩

/-- A path leads to names, whatever it consists of. -/
theorem names_walk (h : Names slash dot dir) (path : List α) :
    Names slash dot (walk slash dot dir path) := by
  unfold walk
  exact List.foldlRecOn (motive := Names slash dot) _ _ h fun b hb seg hseg =>
    names_enter hb (slash_free_of_mem_splitOn hseg)

/-! ## The functions walk -/

theorem normalizeString_eq_nil {path : List α} (h : normalizeString slash dot path = []) :
    walk slash dot [] path = [] := by
  have hnames : Names slash dot (walk slash dot [] path) := names_walk (by nofun) path
  have hwalk : walk slash dot [] ([slash].intercalate (walk slash dot [] path)) =
      [] ++ walk slash dot [] path := walk_intercalate hnames
  rw [normalizeString] at h
  rw [h, walk_nil, List.nil_append] at hwalk
  exact hwalk.symm

theorem walk_normalizeString (path : List α) :
    walk slash dot [] (normalizeString slash dot path) = walk slash dot [] path := by
  rw [normalizeString, walk_intercalate (names_walk (by nofun) path), List.nil_append]

theorem walk_normalize (path : List α) :
    walk slash dot [] (normalize slash dot path) = walk slash dot [] path := by
  unfold normalize
  split
  · rename_i hnil
    rw [walk_slash, walk_nil, normalizeString_eq_nil hnil]
  · split
    · rw [walk_slash, walk_concat, walk_normalizeString]
    · rw [walk_slash, walk_normalizeString]

theorem walk_join (a b : List α) :
    walk slash dot [] (join slash dot a b) = walk slash dot (walk slash dot [] a) b := by
  unfold join
  split
  · rename_i hnil
    rw [walk_normalize, hnil, walk_nil]
  · rw [walk_normalize, walk_append]

theorem head?_normalize (path : List α) : (normalize slash dot path).head? = some slash := by
  unfold normalize
  split
  · rfl
  · split <;> rfl

theorem head?_join (a b : List α) : (join slash dot a b).head? = some slash := by
  unfold join
  split <;> exact head?_normalize _

/-- **`resolve` walks** from the root. -/
theorem resolve_eq (cwd path : List α) : resolve slash dot cwd path =
    render slash (walk slash dot [] (absolutePath slash cwd path)) := by
  rw [resolve, normalizeString, walk_concat, render]

/-- **`resolve` of `join` walks** from the directory. -/
theorem resolve_join (cwd : List α) (h : Names slash dot dir) (path : List α) :
    resolve slash dot cwd (join slash dot (render slash dir) path) =
      render slash (walk slash dot dir path) := by
  rw [resolve_eq, absolutePath, if_pos (head?_join ..), walk_join, walk_render h]

theorem join_name (h : Names slash dot dir) {name : List α} (hname : IsName slash dot name)
    (hlast : name.getLast? ≠ some slash) :
    join slash dot (render slash dir) name = render slash (dir ++ [name]) := by
  have hwalk : walk slash dot [] (render slash dir ++ slash :: name) = dir ++ [name] := by
    have hone : Names slash dot [name] := by
      intro n hn
      rwa [List.mem_singleton.mp hn]
    have hdown : walk slash dot dir ([slash].intercalate [name]) = dir ++ [name] :=
      walk_intercalate hone
    rw [walk_append, walk_render h]
    simpa [List.intercalate] using hdown
  have hne : normalizeString slash dot (render slash dir ++ slash :: name) ≠ [] := by
    intro hnil
    rw [normalizeString_eq_nil hnil] at hwalk
    simp at hwalk
  unfold join normalize
  rw [if_neg hname.ne_nil, if_neg hne, if_neg]
  · rw [normalizeString, hwalk, render]
  · rw [List.getLast?_append_cons, List.getLast?_cons]
    cases hcase : name.getLast? with
    | none => exact absurd (List.getLast?_eq_none_iff.mp hcase) hname.ne_nil
    | some c =>
      rw [hcase] at hlast
      simpa using hlast

/-- **The test** says that a path is below a directory. -/
theorem startsWith_iff {names : List (List α)} (hdir : Names slash dot dir)
    (hnames : Names slash dot names) :
    render slash dir ++ [slash] <+: render slash names ↔ Below dir names := by
  have hsplit : ∀ l : List (List α), Names slash dot l → l ≠ [] →
      ([slash].intercalate l).splitOn slash = l := fun l hl hne =>
    List.splitOn_intercalate slash (fun n hn => (hl n hn).slash_free) hne
  unfold Below render
  constructor
  · rintro ⟨t, ht⟩
    have ht : [slash].intercalate dir ++ slash :: t = [slash].intercalate names := by
      simpa using ht
    have hne : names ≠ [] := by
      rintro rfl
      simp [List.intercalate] at ht
    have hsame := congrArg (List.splitOn slash) ht
    rw [List.splitOn_append_cons_self, hsplit names hnames hne] at hsame
    by_cases hroot : dir = []
    · -- names are not empty
      subst hroot
      have hmem : ([] : List α) ∈ names := by
        rw [← hsame]
        simp [List.intercalate]
      exact absurd rfl (hnames [] hmem).ne_nil
    · rw [hsplit dir hdir hroot] at hsame
      refine ⟨hroot, ⟨_, hsame⟩, fun he => ?_⟩
      rw [he] at hsame
      exact List.splitOn_ne_nil slash t (List.append_right_eq_self.mp hsame)
  · rintro ⟨hroot, ⟨t, rfl⟩, hne⟩
    have ht : t ≠ [] := by
      rintro rfl
      simp at hne
    have hparts : ([slash].intercalate dir ++ slash :: [slash].intercalate t).splitOn slash =
        dir ++ t := by
      rw [List.splitOn_append_cons_self, hsplit dir hdir hroot,
        hsplit t (fun n hn => hnames n (List.mem_append_right _ hn)) ht]
    rw [← hparts, List.intercalate_splitOn]
    exact ⟨[slash].intercalate t, by simp⟩

end

end Meshezia.PosixPath
