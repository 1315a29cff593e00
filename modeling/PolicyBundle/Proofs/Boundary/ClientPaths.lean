import PolicyBundle.Proofs.Boundary.Clients
import PolicyBundle.Proofs.Files.Resolution

/-! Where the paths of a client lead. A client cuts a dot and a slash off the front of a path before it
calls. What is left leads to the same place, unless it is nothing or has another slash in front: the
library refuses the one for want of a source and takes the other for absolute. -/

namespace PolicyBundle

open Log

namespace Files

/-- What the segments of a path lead to, however long the path is. -/
def Tree.leadsTo (tree : Tree) (follow : Bool) (path : String) : Except Error (Place × Nat) :=
  resolveFrom tree.root follow maxLinks (tree.start path) (segments path)

/-- The segments of a path that are not skipped on the way. -/
def properSegments (path : String) : List String :=
  (segments path).filter fun segment => segment ≠ "" && segment ≠ "."

theorem toList_dot (path : String) : ("./" ++ path).toList = '.' :: '/' :: path.toList := by
  rw [String.toList_append]
  rfl

theorem segments_dot (path : String) : segments ("./" ++ path) = "." :: segments path := by
  have hPieces : ('.' :: '/' :: path.toList).splitOn '/' = ['.'] :: path.toList.splitOn '/' :=
    List.splitOn_append_cons_self ['.'] path.toList
  rw [segments_eq_map, segments_eq_map, toList_dot, hPieces]
  rfl

theorem properSegments_dot (path : String) :
    properSegments ("./" ++ path) = properSegments path := by
  rw [properSegments, properSegments, segments_dot, List.filter_cons_of_neg (by decide)]

theorem startsWith_slash_dot (path : String) : Text.startsWith ("./" ++ path) "/" = false := by
  rw [Text.startsWith, toList_dot]
  rfl

theorem startsWith_slashes_dot (path : String) :
    Text.startsWith ("./" ++ path) ".//" = Text.startsWith path "/" := by
  have hSlashes : ".//".toList = '.' :: '/' :: "/".toList := rfl
  rw [Text.startsWith, Text.startsWith, toList_dot, hSlashes]
  simp

/-- A dot and a slash in front of a path lead nowhere, unless they hide another slash. -/
theorem Tree.leadsTo_dot (tree : Tree) (follow : Bool) {path : String}
    (hSlash : Text.startsWith path "/" = false) :
    tree.leadsTo follow ("./" ++ path) = tree.leadsTo follow path := by
  obtain ⟨segment, rest, hSegments⟩ := List.exists_cons_of_ne_nil (l := segments path)
    (by simp [segments_eq_map, List.splitOn_ne_nil])
  rw [leadsTo, leadsTo, start, start, startsWith_slash_dot, hSlash, segments_dot, hSegments,
    resolveFrom_dot_cons _ _ (.inr rfl)]

end Files

namespace Boundary

open Files

section Normalizing

variable {path : String}

/-- What a client makes of a path without backslashes: it loses what is cut off, or stays as it is. -/
theorem normalizePath_cases (h : '\\' ∉ path.toList) :
    (∃ rest, path = "./" ++ rest ∧ normalizePath path = rest) ∨
      (∀ rest, path ≠ "./" ++ rest) ∧ normalizePath path = path := by
  cases hDot : Text.after? "./" path with
  | some rest =>
      obtain rfl := Text.after?_eq_some_iff.mp hDot
      rw [String.toList_append, List.mem_append, not_or] at h
      refine .inl ⟨rest, rfl, ?_⟩
      rw [normalizePath, hDot]
      exact Text.replace_of_notMem h.2
  | none =>
      have hOther : ∀ rest, path ≠ "./" ++ rest := by
        intro rest hRest
        rw [Text.after?_eq_some_iff.mpr hRest] at hDot
        cases hDot
      have hNone : Text.after? ".\\" path = none := by
        rw [Option.eq_none_iff_forall_ne_some]
        intro rest hRest
        rw [Text.after?_eq_some_iff.mp hRest, String.toList_append] at h
        exact h (List.mem_append_left _ (by decide))
      refine .inr ⟨hOther, ?_⟩
      rw [normalizePath, hDot, hNone]
      exact Text.replace_of_notMem h

theorem replace_eq_empty_iff (old new : Char) (text : String) :
    Text.replace old new text = "" ↔ text = "" := by
  rw [Text.replace, ← String.toList_eq_nil_iff, String.toList_ofList, List.map_eq_nil_iff,
    String.toList_eq_nil_iff]

/-- Nothing is left of a path that is only what is cut off. -/
theorem normalizePath_eq_empty_iff (hPath : path ≠ "") :
    normalizePath path = "" ↔ path = "./" ∨ path = ".\\" := by
  rw [normalizePath, replace_eq_empty_iff]
  cases hDot : Text.after? "./" path with
  | some rest =>
      have hOther : path ≠ ".\\" := by
        rintro rfl
        have hNone : Text.after? "./" ".\\" = none := by decide
        rw [hNone] at hDot
        cases hDot
      obtain rfl := Text.after?_eq_some_iff.mp hDot
      simp [hOther]
  | none =>
      have hOther : path ≠ "./" := by
        rintro rfl
        exact absurd hDot (by decide)
      cases hBackslash : Text.after? ".\\" path with
      | some rest =>
          obtain rfl := Text.after?_eq_some_iff.mp hBackslash
          simp [hOther]
      | none =>
          have hNone : path ≠ ".\\" := by
            rintro rfl
            exact absurd hBackslash (by decide)
          simp [hOther, hNone, hPath]

end Normalizing

/-- What a client is told where the library misses the source. -/
def missingSource : ClientError :=
  .build Build.Status.invalidArgument.code
    (Build.Error.invalidArgument Breach.noSource.message).message

/-- The path that a client hands over names the same file as the path that it was given: it is not empty,
begins at the same directory and goes on through the same segments. So the library never misses a source,
and what it builds is at the place to which the given path leads. -/
structure NamesSameFile (path : String) : Prop where
  nonempty : normalizePath path ≠ ""
  absolute : Text.startsWith (normalizePath path) "/" = Text.startsWith path "/"
  segments : properSegments (normalizePath path) = properSegments path
  accepted : ∀ around p, compilePath around path p ≠ .error missingSource
  located : ∀ (around : Build.Surroundings) p,
    (∃ position, compilePath around path p = .error (.zeroByte position)) ∨
      ∃ source, (∀ follow, around.files.leadsTo follow source = around.files.leadsTo follow path) ∧
        compilePath around path p = (p.record around.files false).bind fun record =>
          received (Build.run around (Build.bundleCompiler around) record.parameters
            (.path source)).outcome.value

section Compiling

variable {around : Build.Surroundings} {p : ClientParameters} {path : String}

theorem received_ne_missingSource (around : Build.Surroundings) (parameters : Build.Parameters)
    (request : Build.Request) :
    FailsWith (· ≠ missingSource) (received (Build.run around (Build.bundleCompiler around) parameters
      request).outcome.value) := by
  have hStatus := Build.status_of_run_eq_error around (Build.bundleCompiler around) parameters request
  cases hRun : (Build.run around (Build.bundleCompiler around) parameters request).outcome.value with
  | error e =>
      refine failsWith_error fun hSame => hStatus e hRun ?_
      rw [missingSource, ClientError.build.injEq] at hSame
      have hCode := hSame.1
      cases hKind : e.status with
      | invalidArgument => rfl
      | _ => rw [hKind] at hCode; cases hCode
  | ok output =>
      rw [received]
      cases handOver output with
      | ok handed => exact failsWith_ok _
      | error fault => exact failsWith_error (by simp [missingSource, Build.Status.code])

/-- A path with a zero byte is not handed over. -/
theorem compilePath_of_zero (hPath : path ≠ "") (hZero : ¬ZeroFree (normalizePath path)) :
    ∃ position, compilePath around path p = .error (.zeroByte position) := by
  have hNonempty : path.isEmpty = false := by
    rwa [Bool.eq_false_iff, ne_eq, String.isEmpty_iff]
  have hMem : (0 : UInt8) ∈ Text.utf8 (normalizePath path) := by
    by_contra hNone
    exact hZero ((zero_notMem_utf8_iff _).mp hNone)
  obtain ⟨position, hPosition⟩ :
      ∃ position, (Text.utf8 (normalizePath path)).idxOf? 0 = some position := by
    rw [← Option.isSome_iff_exists]
    simpa using hMem
  refine ⟨position, ?_⟩
  simp only [compilePath, hNonempty, enter, hPosition, bind, Except.bind]
  rfl

/-- Where nothing is left of a path, its source is missed. -/
theorem compilePath_default_of_nothing (hPath : path ≠ "") (hNothing : normalizePath path = "") :
    compilePath ⟨.empty, .default⟩ path .default = .error missingSource := by
  have hCrosses : ClientParameters.default.Crosses Tree.empty none :=
    ⟨rfl, by decide, by decide, by decide, nofun, nofun, nofun⟩
  have hCount : ClientParameters.default.countFault? = none := by decide
  rw [compilePath_of_nothing hPath hNothing, hCrosses.record_eq, hCount]
  rfl

/-- A path of which something is left is never missed. -/
theorem compilePath_ne_missingSource (hSome : normalizePath path ≠ "") :
    compilePath around path p ≠ .error missingSource := by
  by_cases hZero : ZeroFree (normalizePath path)
  · rw [compilePath_eq hZero hSome]
    have hOwn : FailsWith (· ≠ missingSource) (p.record around.files false) := by
      rintro _ hError rfl
      exact isOwn_record p around.files false _ hError
    have hFails := hOwn.bind fun record =>
      received_ne_missingSource around record.parameters (.path (normalizePath path))
    exact fun hMissing => hFails _ hMissing rfl
  · have hPath : path ≠ "" := by
      rintro rfl
      exact hSome (by decide)
    obtain ⟨position, hPosition⟩ :
        ∃ position, compilePath around path p = .error (.zeroByte position) :=
      compilePath_of_zero hPath hZero
    rw [hPosition]
    exact fun hMissing => nomatch Except.error.inj hMissing

/-- A client builds what the path that it hands over leads to. -/
theorem compilePath_located (hSome : normalizePath path ≠ "")
    (hSame : ∀ follow, around.files.leadsTo follow (normalizePath path) =
      around.files.leadsTo follow path) :
    (∃ position, compilePath around path p = .error (.zeroByte position)) ∨
      ∃ source, (∀ follow, around.files.leadsTo follow source = around.files.leadsTo follow path) ∧
        compilePath around path p = (p.record around.files false).bind fun record =>
          received (Build.run around (Build.bundleCompiler around) record.parameters
            (.path source)).outcome.value := by
  by_cases hZero : ZeroFree (normalizePath path)
  · exact .inr ⟨normalizePath path, hSame, compilePath_eq hZero hSome⟩
  · refine .inl (compilePath_of_zero ?_ hZero)
    rintro rfl
    exact hSome (by decide)

end Compiling

/-- Where it begins at the same directory and leads through the same segments, a path names the same
file. -/
theorem namesSameFile_of_leadsTo {path : String} (hSome : normalizePath path ≠ "")
    (hAbsolute : Text.startsWith (normalizePath path) "/" = Text.startsWith path "/")
    (hSegments : properSegments (normalizePath path) = properSegments path)
    (hSame : ∀ (tree : Tree) follow,
      tree.leadsTo follow (normalizePath path) = tree.leadsTo follow path) : NamesSameFile path :=
  ⟨hSome, hAbsolute, hSegments, fun _ _ => compilePath_ne_missingSource hSome,
    fun around _ => compilePath_located hSome (hSame around.files)⟩

/-- A client's path without backslashes keeps its segments, and it names the same file unless it is the
current directory with a slash behind it or has two slashes behind a dot in front. -/
theorem namesSameFile_iff_of_notMem {path : String} (hBackslash : '\\' ∉ path.toList)
    (hPath : path ≠ "") :
    properSegments (normalizePath path) = properSegments path ∧
      (NamesSameFile path ↔ path ≠ "./" ∧ Text.startsWith path ".//" = false) := by
  rcases normalizePath_cases hBackslash with ⟨rest, rfl, hRest⟩ | ⟨hOther, hSame⟩
  · have hSegments : properSegments (normalizePath ("./" ++ rest)) = properSegments ("./" ++ rest) := by
      rw [hRest, properSegments_dot]
    refine ⟨hSegments, ?_⟩
    rw [ne_eq, String.append_eq_left_iff, startsWith_slashes_dot]
    constructor
    · intro hNames
      have hAbsolute := hNames.absolute
      rw [hRest, startsWith_slash_dot] at hAbsolute
      exact ⟨fun hNothing => hNames.nonempty (hRest.trans hNothing), hAbsolute⟩
    · rintro ⟨hSome, hRelative⟩
      refine namesSameFile_of_leadsTo ?_ ?_ hSegments fun tree follow => ?_
      · rwa [hRest]
      · rw [hRest, hRelative, startsWith_slash_dot]
      · rw [hRest, tree.leadsTo_dot follow hRelative]
  · refine ⟨by rw [hSame], fun _ => ⟨?_, ?_⟩, fun _ => ?_⟩
    · exact hOther ""
    · rw [Bool.eq_false_iff, ne_eq, Text.startsWith_iff]
      rintro ⟨rest, hRest⟩
      apply hOther (String.ofList ('/' :: rest))
      have hSlashes : ".//".toList = ['.', '/', '/'] := rfl
      rw [← String.toList_inj, ← hRest, toList_dot, hSlashes]
      simp
    · exact namesSameFile_of_leadsTo (by rwa [hSame]) (by rw [hSame]) (by rw [hSame])
        fun _ _ => by rw [hSame]

/-- The library misses the source of a path that is not empty exactly if the path is nothing but what is
cut off. A path without backslashes keeps its segments, and it names the same file unless it is the current
directory with a slash behind it or has two slashes behind a dot in front. -/
theorem namesSameFile_iff (path : String) (hPath : path ≠ "") :
    ((∃ around p, compilePath around path p = .error missingSource) ↔ path = "./" ∨ path = ".\\") ∧
      ('\\' ∉ path.toList →
        properSegments (normalizePath path) = properSegments path ∧
          (NamesSameFile path ↔ path ≠ "./" ∧ Text.startsWith path ".//" = false)) := by
  refine ⟨?_, fun hBackslash => namesSameFile_iff_of_notMem hBackslash hPath⟩
  rw [← normalizePath_eq_empty_iff hPath]
  constructor
  · rintro ⟨around, p, hMissing⟩
    by_contra hSome
    exact compilePath_ne_missingSource hSome hMissing
  · intro hNothing
    exact ⟨⟨.empty, .default⟩, .default, compilePath_default_of_nothing hPath hNothing⟩

/-- A path with a dot in front names the same file. -/
theorem namesSameFile_iff_dotInFront :
    ("./policies" ≠ "" ∧ '\\' ∉ "./policies".toList) ∧ NamesSameFile "./policies" := by
  have hSome : "./policies" ≠ "" := by decide
  have hBackslash : '\\' ∉ "./policies".toList := by decide
  have hNames := ((namesSameFile_iff "./policies" hSome).2 hBackslash).2
  exact ⟨⟨hSome, hBackslash⟩, hNames.mpr ⟨by decide, by decide⟩⟩

/-- Behind a dot and a second slash, a directory is looked for at the root; and of the current directory
with a slash behind it nothing is left. -/
theorem not_namesSameFile_secondSlash :
    ((".//b" ≠ "" ∧ '\\' ∉ ".//b".toList) ∧ ¬NamesSameFile ".//b") ∧
      ("./" ≠ "" ∧ '\\' ∉ "./".toList) ∧ ¬NamesSameFile "./" := by
  refine ⟨⟨⟨by decide, by decide⟩, fun hNames => ?_⟩, ⟨by decide, by decide⟩, fun hNames => ?_⟩
  · exact absurd hNames.absolute (by decide)
  · exact absurd (by decide) hNames.nonempty

end Boundary

end PolicyBundle
