import Meshezia.Lib.JsValue
import Meshezia.Lib.PosixPath

/-!
# Static files (`index.ts`)

With a static directory the server answers every request that is not one of the API's with a file.
It decodes the path of the request, resolves it from the directory, and refuses it unless the
result starts with the directory and a slash.

In terms of the tree of directories (`staticTree`) it walks from the static directory as the
decoded path says, and answers with what is there, or with `index.html`, if that is below the
static directory.  The strings agree with the tree for every request (`static_inside`): no request
gets out, and none that stays below is refused.  A name with a NUL byte is an error, and from the
root of the file system nothing is served.
-/

namespace Meshezia

open PosixPath

/-- The character `/`. -/
def SLASH : UInt16 := 47

/-- The character `.`. -/
def DOT : UInt16 := 46

/-- The NUL byte, which is in no path. -/
def NUL : UInt16 := 0

/-- `failed` is the answer when `decodeURIComponent` or `Bun.file` throws. -/
inductive StaticAnswer (π : Type) where
  | failed
  | forbidden
  | file (path : π)
deriving DecidableEq, Repr

def StaticAnswer.map {π ρ : Type} (f : π → ρ) : StaticAnswer π → StaticAnswer ρ
  | .failed => .failed
  | .forbidden => .forbidden
  | .file path => .file (f path)

/-! ## Algorithm -/

section
variable (decodeURIComponent : JsString → Option JsString) (fileExists : JsString → Bool)
  (cwd : JsString)

def resolvedStaticDir (staticDir : JsString) : JsString :=
  if staticDir = [] then [] else resolve SLASH DOT cwd staticDir

/-- The path that is decoded. -/
def reqPath (pathname : JsString) : JsString :=
  if pathname = js "/" then js "/index.html" else pathname

/-- `Bun.file` throws at a path with a NUL byte. -/
def bunFile (path : JsString) : Option JsString := if NUL ∈ path then none else some path

/-- The last part of `fetch`; without a static directory the API answers. -/
def serveStatic (resolvedStaticDir pathname : JsString) : Option (StaticAnswer JsString) :=
  if resolvedStaticDir = [] then none
  else
    match decodeURIComponent (reqPath pathname) with
    | none => some .failed
    | some decoded =>
      let resolved := resolve SLASH DOT cwd (join SLASH DOT resolvedStaticDir decoded)
      if (resolvedStaticDir ++ [SLASH]).isPrefixOf resolved then
        match bunFile resolved with
        | none => some .failed
        | some file =>
          if fileExists file then some (.file file)
          else
            match bunFile (join SLASH DOT resolvedStaticDir (js "index.html")) with
            | none => some .failed
            | some index => some (.file index)
      else some .forbidden

/-! ## The tree -/

/-- The names on the way to the static directory. -/
def staticNames (staticDir : JsString) : List JsString :=
  walk SLASH DOT [] (absolutePath SLASH cwd staticDir)

/-- What is below the directory where the path leads.  Nothing is below the root, since no path
starts with two slashes. -/
def staticTree (isFile : List JsString → Bool) (dir : List JsString) (path : JsString) :
    StaticAnswer (List JsString) :=
  let names := walk SLASH DOT dir path
  if Below dir names then
    if ∃ name ∈ names, NUL ∈ name then .failed
    else if isFile names then .file names
    else .file (dir ++ [js "index.html"])
  else .forbidden

/-! ## Lemmas -/

theorem names_staticNames (staticDir : JsString) :
    Names SLASH DOT (staticNames cwd staticDir) := names_walk (by nofun) _

theorem isName_index : IsName SLASH DOT (js "index.html") :=
  ⟨by decide, by decide, by decide, by decide⟩

/-- A path has a NUL byte where a name on it has one. -/
theorem bunFile_render (names : List JsString) : bunFile (render SLASH names) =
    if ∃ name ∈ names, NUL ∈ name then none else some (render SLASH names) := by
  have hmem : NUL ∈ render SLASH names ↔ ∃ name ∈ names, NUL ∈ name := by
    rw [render, List.mem_cons, or_iff_right (by decide)]
    induction names with
    | nil => simp [List.intercalate]
    | cons name rest ih =>
      cases rest with
      | nil => simp [List.intercalate]
      | cons next rest =>
        have hcons : [SLASH].intercalate (name :: next :: rest) =
            name ++ SLASH :: [SLASH].intercalate (next :: rest) := by simp [List.intercalate]
        have hslash : NUL ≠ SLASH := by decide
        rw [hcons, List.mem_append, List.mem_cons, ih]
        simp [hslash]
  unfold bunFile
  simp only [hmem]

/-- Where no name on the way is bad, none on the way to `index.html` is. -/
theorem index_clean {dir names : List JsString} (hunder : dir <+: names)
    (h : ¬ ∃ name ∈ names, NUL ∈ name) : ¬ ∃ name ∈ dir ++ [js "index.html"], NUL ∈ name := by
  rintro ⟨name, hname, hnul⟩
  rcases List.mem_append.mp hname with hname | hname
  · exact h ⟨name, hunder.subset hname, hnul⟩
  · rw [List.mem_singleton.mp hname] at hnul
    exact absurd hnul (by decide)

theorem serveStatic_render {dir : List JsString} (h : Names SLASH DOT dir) (pathname : JsString) :
    serveStatic decodeURIComponent fileExists cwd (render SLASH dir) pathname =
      match decodeURIComponent (reqPath pathname) with
      | none => some .failed
      | some decoded =>
        some ((staticTree (fun names => fileExists (render SLASH names)) dir decoded).map
          (render SLASH)) := by
  have hne : render SLASH dir ≠ [] := List.cons_ne_nil _ _
  unfold serveStatic
  rw [if_neg hne]
  cases decodeURIComponent (reqPath pathname) with
  | none => rfl
  | some decoded =>
    have hwalk := names_walk h decoded
    dsimp only
    rw [resolve_join cwd h, join_name h isName_index (by decide)]
    unfold staticTree
    dsimp only
    by_cases hbelow : Below dir (walk SLASH DOT dir decoded)
    · rw [if_pos hbelow,
        if_pos (List.isPrefixOf_iff_prefix.mpr ((startsWith_iff h hwalk).mpr hbelow)),
        bunFile_render, bunFile_render]
      by_cases hnul : ∃ name ∈ walk SLASH DOT dir decoded, NUL ∈ name
      · rw [if_pos hnul, if_pos hnul]
        rfl
      · rw [if_neg hnul, if_neg hnul, if_neg (index_clean hbelow.2.1 hnul)]
        dsimp only
        split <;> rfl
    · rw [if_neg hbelow, if_neg fun hunder =>
        hbelow ((startsWith_iff h hwalk).mp (List.isPrefixOf_iff_prefix.mp hunder))]
      rfl

/-- What the tree answers with lies below the directory. -/
theorem below_staticTree {isFile : List JsString → Bool} {dir names : List JsString}
    {path : JsString} (h : Names SLASH DOT dir) (hfile : staticTree isFile dir path = .file names) :
    Below dir names ∧ Names SLASH DOT names := by
  unfold staticTree at hfile
  dsimp only at hfile
  split at hfile
  · rename_i hbelow
    split at hfile
    · cases hfile
    split at hfile
    · cases hfile
      exact ⟨hbelow, names_walk h path⟩
    · cases hfile
      refine ⟨⟨hbelow.1, List.prefix_append .., fun he => ?_⟩, fun n hn => ?_⟩
      · exact absurd (List.self_eq_append_right.mp he) (by simp)
      · rcases List.mem_append.mp hn with hn | hn
        · exact h n hn
        · rw [List.mem_singleton.mp hn]
          exact isName_index
  · cases hfile

/-- From the root everything is refused. -/
theorem staticTree_root (isFile : List JsString → Bool) (path : JsString) :
    staticTree isFile [] path = .forbidden := by
  unfold staticTree
  exact if_neg fun hbelow => hbelow.1 rfl

/-! ## Top theorem -/

/-- **No request gets out of the static directory**, and none that stays below it is refused,
unless the directory is the root. -/
theorem static_inside (staticDir pathname : JsString) :
    serveStatic decodeURIComponent fileExists cwd (resolvedStaticDir cwd staticDir) pathname =
        (if staticDir = [] then none
        else match decodeURIComponent (reqPath pathname) with
          | none => some .failed
          | some decoded => some ((staticTree (fun names => fileExists (render SLASH names))
              (staticNames cwd staticDir) decoded).map (render SLASH))) ∧
      (staticDir ≠ [] → staticNames cwd staticDir = [] → ∀ decoded,
        decodeURIComponent (reqPath pathname) = some decoded →
        serveStatic decodeURIComponent fileExists cwd (resolvedStaticDir cwd staticDir) pathname =
          some .forbidden) ∧
      ∀ path, serveStatic decodeURIComponent fileExists cwd (resolvedStaticDir cwd staticDir)
          pathname = some (.file path) →
        ∃ names, Below (staticNames cwd staticDir) names ∧ Names SLASH DOT names ∧
          path = render SLASH names := by
  have hdir := names_staticNames cwd staticDir
  by_cases hnone : staticDir = []
  · have hserve : serveStatic decodeURIComponent fileExists cwd
        (resolvedStaticDir cwd staticDir) pathname = none := by
      rw [resolvedStaticDir, if_pos hnone, serveStatic, if_pos rfl]
    rw [hserve, if_pos hnone]
    exact ⟨rfl, fun hdir => absurd hnone hdir, nofun⟩
  · have hresolved : resolvedStaticDir cwd staticDir =
        render SLASH (staticNames cwd staticDir) := by
      rw [resolvedStaticDir, if_neg hnone, resolve_eq]
      rfl
    rw [hresolved, serveStatic_render _ _ _ hdir, if_neg hnone]
    refine ⟨rfl, fun _ hroot decoded hdecoded => ?_, fun path hpath => ?_⟩
    · rw [hdecoded, hroot]
      dsimp only
      rw [staticTree_root]
      rfl
    cases hdecoded : decodeURIComponent (reqPath pathname) with
    | none =>
      rw [hdecoded] at hpath
      cases hpath
    | some decoded =>
      rw [hdecoded] at hpath
      have hpath := Option.some.inj hpath
      cases htree : staticTree (fun names => fileExists (render SLASH names))
          (staticNames cwd staticDir) decoded with
      | file names =>
        rw [htree] at hpath
        cases hpath
        obtain ⟨hbelow, hnames⟩ := below_staticTree hdir htree
        exact ⟨names, hbelow, hnames, rfl⟩
      | failed =>
        rw [htree] at hpath
        cases hpath
      | forbidden =>
        rw [htree] at hpath
        cases hpath

end

/-- Dots are followed to where they lead: out of the directory, or back into it. -/
example : staticTree (fun _ => true) [js "srv", js "www"] (js "/../secret") = .forbidden ∧
    staticTree (fun _ => true) [js "srv", js "www"] (js "/a/../../www/./b") =
      .file [js "srv", js "www", js "b"] ∧
    staticTree (fun _ => true) [js "srv", js "www"] (js "/a" ++ [NUL]) = .failed := by
  decide +kernel

end Meshezia
