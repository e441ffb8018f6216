import RepoSurvey.Proofs.Catalog.FirstMatches
import RepoSurvey.Proofs.Survey.Congruence
import RepoSurvey.Proofs.Text.ByteLines

/-!
# Bytes that are no text

Bytes that are not well-formed are read as something on their own line, and change no other line.

* `Disk.readLenient?_of_bytes`: the text of a file without carriage returns;
* `Catalog.search_congr`: a search asks only which lines match, and how many lines there are;
* `Survey.MatchesLine`, `Survey.matchesLine_iff`: a pattern is found in a line by its bytes;
* `Survey.detectFile_congr_lines`: lines that nothing is found in are as good as any other;
* `Survey.stray_bytes_stay`: what stray bytes can change.
-/

namespace RepoSurvey

open Utf8 (lenient encode)

theorem Disk.readLenient?_of_bytes {disk : Disk} {place : Path} {bytes : List UInt8}
    (hbytes : disk.bytes? place = some bytes) (hreturn : 0x0D ∉ bytes) :
    disk.readLenient? place = some (lenient bytes) := by
  rw [readLenient?, hbytes, Option.map_some,
    Text.unixNewlines_eq_self (Utf8.return_notMem_lenient hreturn)]

theorem Catalog.search_congr {file : String} {lines lines' : List (List Char)} {radius : Int}
    {r : Rule} {found : List Char → Bool} (h : lines.map found = lines'.map found) :
    search file lines radius r found = search file lines' radius r found := by
  have hlength : lines.length = lines'.length := by simpa using congrArg List.length h
  have hfirst : lines.findIdx? found = lines'.findIdx? found := by
    have hsame := congrArg (List.findIdx? id) h
    rwa [List.findIdx?_map, List.findIdx?_map] at hsame
  rw [search, search, hlength, hfirst]

namespace Survey

/-- The file is short enough to be searched, and the pattern is found in its line `i`, counted from
zero. -/
def MatchesLine (disk : Disk) (place : Path) (limit : Int) (p : Pattern) (i : Nat) : Prop :=
  ∃ text line, disk.readWithin? limit place = some text ∧ (Text.lines text)[i]? = some line
    ∧ p.occursIn line = true

/-- A file that is short enough to be searched, and holds no carriage returns. -/
structure Searched (disk : Disk) (place : Path) (limit : Int) (bytes : List UInt8) : Prop where
  holds : disk.bytes? place = some bytes
  return_free : 0x0D ∉ bytes
  short : (lenient bytes).length ≤ limit

section Searched

variable {disk disk' : Disk} {place place' : Path} {limit : Int} {bytes bytes' : List UInt8}

theorem Searched.readWithin? (h : Searched disk place limit bytes) :
    disk.readWithin? limit place = some (lenient bytes) := by
  rw [Disk.readWithin?, Disk.readLenient?_of_bytes h.holds h.return_free, Option.bind_some,
    if_pos h.short]

theorem matchesLine_iff (h : Searched disk place limit bytes) {p : Pattern} {i : Nat} :
    MatchesLine disk place limit p i
      ↔ ∃ line, (bytes.splitOn 0x0A)[i]? = some line ∧ p.occursIn (lenient line) = true := by
  have hlines : Text.lines (lenient bytes) = (bytes.splitOn 0x0A).map lenient := by
    rw [Text.lines_eq_splitOn, Utf8.splitOn_lenient]
  constructor
  · rintro ⟨text, line, htext, hline, hoccurs⟩
    obtain rfl : lenient bytes = text := Option.some.inj (h.readWithin?.symm.trans htext)
    rw [hlines, List.getElem?_map] at hline
    obtain ⟨stored, hstored, rfl⟩ := Option.map_eq_some_iff.mp hline
    exact ⟨stored, hstored, hoccurs⟩
  · rintro ⟨stored, hstored, hoccurs⟩
    refine ⟨lenient bytes, lenient stored, h.readWithin?, ?_, hoccurs⟩
    rw [hlines, List.getElem?_map, hstored, Option.map_some]

/-- A pattern is found in a line of two files alike where the bytes of the line are the same. -/
theorem matchesLine_congr (h : Searched disk place limit bytes)
    (h' : Searched disk' place' limit bytes') {i : Nat}
    (hline : (bytes.splitOn 0x0A)[i]? = (bytes'.splitOn 0x0A)[i]?) (p : Pattern) :
    MatchesLine disk place limit p i ↔ MatchesLine disk' place' limit p i := by
  rw [matchesLine_iff h, matchesLine_iff h', hline]

/-- Two files in which no pattern is found in any line that is not the same in both have the same
detections. -/
theorem detectFile_congr_lines (h : Searched disk place limit bytes)
    (h' : Searched disk' place' limit bytes')
    (hlength : (bytes.splitOn 0x0A).length = (bytes'.splitOn 0x0A).length) {rules : List Rule}
    {file : String}
    (hlines : ∀ i, (bytes.splitOn 0x0A)[i]? ≠ (bytes'.splitOn 0x0A)[i]? →
      ∀ s ∈ Catalog.searches rules file,
        ¬ MatchesLine disk place limit s.2 i ∧ ¬ MatchesLine disk' place' limit s.2 i)
    (radius : Int) :
    detectFile disk rules place file radius limit
      = detectFile disk' rules place' file radius limit := by
  rw [detectFile_eq, detectFile_eq, h.readWithin?, h'.readWithin?]
  simp only [Option.map_some, Option.getD_some]
  rw [Catalog.detect_eq_detectBy, Catalog.detectBy_eq h.short, Catalog.detectBy_eq h'.short]
  refine congrArg (Except.map List.flatten) (mapM_congr fun s hs => ?_)
  apply Catalog.search_congr
  rw [Utf8.splitOn_lenient, Utf8.splitOn_lenient, List.map_map, List.map_map]
  apply List.ext_getElem?
  intro i
  rw [List.getElem?_map, List.getElem?_map]
  by_cases hi : (bytes.splitOn 0x0A)[i]? = (bytes'.splitOn 0x0A)[i]?
  · rw [hi]
  obtain ⟨hno, hno'⟩ := hlines i hi s hs
  rw [matchesLine_iff h] at hno
  rw [matchesLine_iff h'] at hno'
  by_cases hbound : i < (bytes.splitOn 0x0A).length
  · have hline := List.getElem?_eq_getElem hbound
    have hline' := List.getElem?_eq_getElem (hlength ▸ hbound)
    have hmiss := Bool.eq_false_iff.mpr fun hoccurs => hno ⟨_, hline, hoccurs⟩
    have hmiss' := Bool.eq_false_iff.mpr fun hoccurs => hno' ⟨_, hline', hoccurs⟩
    rw [hline, hline', Option.map_some, Option.map_some, Function.comp_apply, Function.comp_apply,
      hmiss, hmiss']
  · rw [List.getElem?_eq_none (by omega), List.getElem?_eq_none (by omega)]

end Searched

/-- A file without carriage returns is read line by line of its bytes: there are as many lines, each
is the reading of its own bytes, and exactly the text that these are the bytes of. If the file is
not too long, the detections are around the first of these lines that match; a pattern is found in a
line exactly if it is in another file with as many lines in which the bytes of the line are the
same; and that other file has the same detections unless something is found in a line in which the
two differ. -/
theorem stray_bytes_stay {disk : Disk} {place : Path} {bytes : List UInt8}
    (hbytes : disk.bytes? place = some bytes) (hreturn : 0x0D ∉ bytes) :
    ∃ text, disk.readLenient? place = some text
      ∧ text.splitOn '\n' = (bytes.splitOn 0x0A).map lenient
      ∧ (text.splitOn '\n').length = (bytes.splitOn 0x0A).length
      ∧ (∀ (i : Nat) (line : List Char), (bytes.splitOn 0x0A)[i]? = some (encode line) →
        (text.splitOn '\n')[i]? = some line)
      ∧ ∀ limit : Int, text.length ≤ limit →
        (∀ rules file radius ds, 0 ≤ radius →
          detectFile disk rules place file radius limit = .ok ds →
          List.Forall₂ (fun s d => Catalog.Reports file ((bytes.splitOn 0x0A).map lenient) radius
              s.1 (Pattern.occursIn s.2) d)
            (Catalog.matched Pattern.occursIn rules file ((bytes.splitOn 0x0A).map lenient)) ds)
        ∧ ∀ disk' place' bytes', Searched disk' place' limit bytes' →
          (bytes.splitOn 0x0A).length = (bytes'.splitOn 0x0A).length →
          (∀ i : Nat, (bytes.splitOn 0x0A)[i]? = (bytes'.splitOn 0x0A)[i]? →
            ∀ p, MatchesLine disk place limit p i ↔ MatchesLine disk' place' limit p i)
          ∧ ∀ rules file, (∀ i : Nat, (bytes.splitOn 0x0A)[i]? ≠ (bytes'.splitOn 0x0A)[i]? →
              ∀ s ∈ Catalog.searches rules file,
                ¬ MatchesLine disk place limit s.2 i ∧ ¬ MatchesLine disk' place' limit s.2 i) →
            ∀ radius, detectFile disk rules place file radius limit
              = detectFile disk' rules place' file radius limit := by
  have hread := Disk.readLenient?_of_bytes hbytes hreturn
  have hlines := Utf8.splitOn_lenient bytes
  refine ⟨lenient bytes, hread, hlines, ?_, ?_, ?_⟩
  · rw [hlines, List.length_map]
  · intro i line hline
    rw [hlines, List.getElem?_map, hline, Option.map_some, Utf8.lenient_encode]
  intro limit hshort
  have hsearched : Searched disk place limit bytes := ⟨hbytes, hreturn, hshort⟩
  constructor
  · intro rules file radius ds hradius hds
    rw [detectFile, hread] at hds
    rw [← hlines]
    exact Catalog.forall₂_of_detectBy hradius hshort hds
  · intro disk' place' bytes' hsearched' hlength
    constructor
    · intro i hline p
      exact matchesLine_congr hsearched hsearched' hline p
    · intro rules file hdiffer radius
      exact detectFile_congr_lines hsearched hsearched' hlength hdiffer radius

/-- A line of code after a comment. -/
def commented (comment : List UInt8) : List UInt8 :=
  comment ++ 0x0A :: encode "const label = count === 1 ? 'item' : 'items'\n".toList

/-- A byte of Latin-1 in the comment. -/
def latin : List UInt8 := commented (encode "// caf".toList ++ [0xE9])

/-- The same letter as UTF-8 has it. -/
def accented : List UInt8 := commented (encode "// café".toList)

def accentDisk : Disk where
  tree := .directory [("a.ts", .file latin), ("b.ts", .file accented)]

theorem stray_bytes_stay_latin : ∃ text,
    accentDisk.bytes? ⟨true, ["a.ts"]⟩ = some latin ∧ 0x0D ∉ latin
    ∧ accentDisk.readLenient? ⟨true, ["a.ts"]⟩ = some text ∧ text.length ≤ (100 : Int)
    ∧ text.splitOn '\n' = (latin.splitOn 0x0A).map lenient
    ∧ Searched accentDisk ⟨true, ["b.ts"]⟩ 100 accented
    ∧ (latin.splitOn 0x0A).length = (accented.splitOn 0x0A).length
    ∧ (∀ p, MatchesLine accentDisk ⟨true, ["a.ts"]⟩ 100 p 1
      ↔ MatchesLine accentDisk ⟨true, ["b.ts"]⟩ 100 p 1)
    ∧ detectFile accentDisk Catalog.rules ⟨true, ["a.ts"]⟩ "u.ts" 0 100
      = detectFile accentDisk Catalog.rules ⟨true, ["b.ts"]⟩ "u.ts" 0 100 := by
  have hsearched : Searched accentDisk ⟨true, ["a.ts"]⟩ 100 latin :=
    ⟨by decide +kernel, by decide +kernel, by decide +kernel⟩
  have hsearched' : Searched accentDisk ⟨true, ["b.ts"]⟩ 100 accented :=
    ⟨by decide +kernel, by decide +kernel, by decide +kernel⟩
  have hsplit : latin.splitOn 0x0A = [encode "// caf".toList ++ [0xE9],
      encode "const label = count === 1 ? 'item' : 'items'".toList, []] := by decide +kernel
  have hsplit' : accented.splitOn 0x0A = [encode "// café".toList,
      encode "const label = count === 1 ? 'item' : 'items'".toList, []] := by decide +kernel
  have hlength : (latin.splitOn 0x0A).length = (accented.splitOn 0x0A).length := by
    rw [hsplit, hsplit']
    rfl
  -- nothing is found in either comment
  have hcomment : ((Catalog.searches Catalog.rules "u.ts").all fun s =>
      !s.2.occursIn (lenient (encode "// caf".toList ++ [0xE9]))
        && !s.2.occursIn (lenient (encode "// café".toList))) = true := by decide +kernel
  obtain ⟨text, hread, hlines, _, _, hwithin⟩ :=
    stray_bytes_stay hsearched.holds hsearched.return_free
  have htext : lenient latin = text := Option.some.inj
    ((Disk.readLenient?_of_bytes hsearched.holds hsearched.return_free).symm.trans hread)
  have hshort : text.length ≤ (100 : Int) := htext ▸ hsearched.short
  obtain ⟨_, hpair⟩ := hwithin 100 hshort
  obtain ⟨hline, hsame⟩ := hpair _ _ _ hsearched' hlength
  refine ⟨text, hsearched.holds, hsearched.return_free, hread, hshort, hlines, hsearched', hlength,
    hline 1 (by rw [hsplit, hsplit']; rfl), ?_⟩
  apply hsame
  intro i hdiffer s hs
  have hmiss := List.all_eq_true.mp hcomment s hs
  rw [hsplit, hsplit'] at hdiffer
  cases i with
  | zero =>
    rw [matchesLine_iff hsearched, matchesLine_iff hsearched', hsplit, hsplit']
    simpa using hmiss
  | succ i => exact absurd rfl hdiffer

end Survey

end RepoSurvey
