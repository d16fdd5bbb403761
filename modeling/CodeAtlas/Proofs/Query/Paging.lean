import CodeAtlas.Proofs.Tree.Path
import CodeAtlas.Query.Snippet
/-!
# Paging through a file

A snippet has a bounded number of lines, and the rest of a file is had by asking again from the line after its last. A
request within the file is answered with exactly one snippet (`snippet_eq_page`), whose rows are the lines of the range
with their numbers. `Tree.Pages` are the snippets that are had by asking again as long as the answer is cut short. They
come to an end, and together their rows are those of the whole range (`snippet_pages`).
-/

namespace CodeAtlas

open CodeAtlas.Text

/-- What a snippet shows, row by row. -/
def Snippet.rows (s : Snippet) : List (List Char) := splitOn '\n' s.text.toList

/-- The snippets from a line on, each from the line after the last of the one before, as long as it was cut short. -/
inductive Tree.Pages (t : Tree) (path : String) (stop : Option Nat) : Nat → List Snippet → Prop
  | last {start : Nat} {page : Snippet} (answer : t.snippet path start stop = .ok page)
      (whole : page.truncated = false) : Pages t path stop start [page]
  | more {start : Nat} {page : Snippet} {rest : List Snippet} (answer : t.snippet path start stop = .ok page)
      (cut : page.truncated = true) (following : Pages t path stop (page.endLine + 1) rest) :
      Pages t path stop start (page :: rest)

namespace Snippet

/-- The line that a request starts from; lines are counted from one. -/
def firstLine (start : Nat) : Nat := max start 1

/-- The line that a request goes to in a file with `total` lines. -/
def lastLine (total : Nat) (stop : Option Nat) : Nat := min (stop.getD total) total

/-- The lines with numbers from `first` to `last`, each with its number. -/
def lineRange (first last : Nat) (lines : List (List Char)) : List (List Char × Nat) :=
  (lines.zipIdx 1).filter fun l => first ≤ l.2 && l.2 ≤ last

/-- A line as a row. -/
def row (l : List Char × Nat) : List Char := numbered l.2 l.1

/-! ## Ranges of lines -/

theorem numberedFrom_eq (first : Nat) (lines : List (List Char)) :
    numberedFrom first lines = (lines.zipIdx first).map row := by
  induction lines generalizing first with
  | nil => rfl
  | cons line rest ih =>
      rw [numberedFrom, ih, List.zipIdx_cons]
      rfl

/-- The lines of a range are those that are left when what is before and behind is cut off. -/
theorem filter_zipIdx (first last next : Nat) (lines : List (List Char)) :
    ((lines.zipIdx next).filter fun l => first ≤ l.2 && l.2 ≤ last) =
      ((lines.drop (first - next)).take (last + 1 - max first next)).zipIdx (max first next) := by
  induction lines generalizing next with
  | nil => simp
  | cons line rest ih =>
      rw [List.zipIdx_cons, List.filter_cons, ih (next + 1)]
      by_cases hbefore : next < first
      · have hdrop : first - next = (first - (next + 1)) + 1 := by omega
        have hmax : max first next = max first (next + 1) := by omega
        rw [if_neg (by simp; omega), hdrop, List.drop_succ_cons, hmax]
      · have hdrop : first - next = 0 := by omega
        have hdrop' : first - (next + 1) = 0 := by omega
        have hmax : max first next = next := by omega
        have hmax' : max first (next + 1) = next + 1 := by omega
        rw [hdrop, hdrop', hmax, hmax', List.drop_zero, List.drop_zero]
        by_cases hbehind : last < next
        · have htake : last + 1 - next = 0 := by omega
          have htake' : last + 1 - (next + 1) = 0 := by omega
          rw [if_neg (by simp; omega), htake, htake', List.take_zero, List.take_zero]
          rfl
        · have htake : last + 1 - next = (last + 1 - (next + 1)) + 1 := by omega
          rw [if_pos (by simp; omega), htake, List.take_succ_cons, List.zipIdx_cons]

variable {first last : Nat} {lines : List (List Char)}

theorem lineRange_eq (h : 1 ≤ first) : lineRange first last lines = (slice first last lines).zipIdx first := by
  rw [lineRange, filter_zipIdx, Nat.max_eq_left h]
  rfl

theorem numberedFrom_slice (h : 1 ≤ first) :
    numberedFrom first (slice first last lines) = (lineRange first last lines).map row := by
  rw [numberedFrom_eq, lineRange_eq h]

/-- A range and the one right behind it. -/
theorem lineRange_append {middle : Nat} (h : 1 ≤ first) (hmiddle : first ≤ middle + 1) (hlast : middle ≤ last)
    (hwithin : middle ≤ lines.length) :
    lineRange first middle lines ++ lineRange (middle + 1) last lines = lineRange first last lines := by
  have hslice : slice first last lines = slice first middle lines ++ slice (middle + 1) last lines := by
    have hcount : last + 1 - first = (middle + 1 - first) + (last - middle) := by omega
    have hskip : first - 1 + (middle + 1 - first) = middle + 1 - 1 := by omega
    have hrest : last - middle = last + 1 - (middle + 1) := by omega
    rw [slice, hcount, List.take_add, List.drop_drop, hskip, hrest]
    rfl
  have hlength : first + (slice first middle lines).length = middle + 1 := by
    rw [slice, List.length_take, List.length_drop]
    omega
  rw [lineRange_eq h, lineRange_eq (by omega), lineRange_eq h, hslice, List.zipIdx_append, hlength]

theorem lineRange_ne_nil (h : 1 ≤ first) (hlast : first ≤ last) (hwithin : first ≤ lines.length) :
    lineRange first last lines ≠ [] := by
  have hlength : 0 < (lineRange first last lines).length := by
    rw [lineRange_eq h, List.length_zipIdx, slice, List.length_take, List.length_drop]
    omega
  exact List.ne_nil_of_length_pos hlength

/-! ## Rows -/

theorem feed_not_mem_numbered (number : Nat) {line : List Char} (h : '\n' ∉ line) : '\n' ∉ numbered number line := by
  have hdigits : '\n' ∉ Number.Binary.natText number := by
    intro hmem
    exact absurd (Nat.isDigit_of_mem_toDigits (by decide) (by decide) hmem) (by decide)
  simp [numbered, padLeft, hdigits, h]

theorem feed_not_mem_lines {text line : List Char} (h : line ∈ Text.lines text) : '\n' ∉ line := by
  have hparts : ∀ parts : List (List Char), (∀ part ∈ parts, '\n' ∉ part) → ∀ l ∈ linesOf parts, '\n' ∉ l := by
    intro parts
    induction parts with
    | nil => simp [linesOf]
    | cons part rest ih =>
        intro hnone l hl
        have hpart := hnone part List.mem_cons_self
        have hdropped : '\n' ∉ dropReturn part := by
          unfold dropReturn
          split
          · exact fun hmem => hpart (List.dropLast_subset _ hmem)
          · exact hpart
        cases rest with
        | nil =>
            rw [linesOf] at hl
            split at hl
            · exact absurd hl List.not_mem_nil
            · rw [List.mem_singleton.1 hl]
              exact hpart
        | cons next rest =>
            rcases List.mem_cons.1 hl with rfl | hl
            · exact hdropped
            · exact ih (fun p hp => hnone p (List.mem_cons_of_mem _ hp)) l hl
  exact hparts _ (fun _ hpart => not_mem_of_mem_splitOn hpart) line h

theorem feed_not_mem_row (hlines : ∀ line ∈ lines, '\n' ∉ line) {l : List Char × Nat} (h : l ∈ lineRange first last lines) :
    '\n' ∉ row l :=
  feed_not_mem_numbered l.2 (hlines _ (List.fst_mem_of_mem_zipIdx (List.mem_filter.1 h).1))

/-- The snippet of a range within the file. -/
def page (path : String) (lines : List (List Char)) (first last : Nat) : Snippet where
  path := path
  startLine := first
  endLine := min last (first + maxLines - 1)
  totalLines := lines.length
  truncated := min last (first + maxLines - 1) < last
  text := String.ofList (joinWith ['\n'] ((lineRange first (min last (first + maxLines - 1)) lines).map row))

theorem rows_page (path : String) (hlines : ∀ line ∈ lines, '\n' ∉ line) (h : 1 ≤ first) (hlast : first ≤ last)
    (hwithin : first ≤ lines.length) :
    (page path lines first last).rows = (lineRange first (min last (first + maxLines - 1)) lines).map row := by
  have hmost : 1 ≤ maxLines := by decide
  have hrows : ∀ r ∈ (lineRange first (min last (first + maxLines - 1)) lines).map row, '\n' ∉ r := by
    intro r hr
    obtain ⟨l, hl, rfl⟩ := List.mem_map.1 hr
    exact feed_not_mem_row hlines hl
  have hsome : lineRange first (min last (first + maxLines - 1)) lines ≠ [] :=
    lineRange_ne_nil h (by omega) hwithin
  rw [rows, page, String.toList_ofList]
  cases hrange : (lineRange first (min last (first + maxLines - 1)) lines).map row with
  | nil => exact absurd (List.map_eq_nil_iff.1 hrange) hsome
  | cons r rest =>
      rw [hrange] at hrows
      exact splitOn_joinWith hrows

/-- A request is answered with the snippet of its range, or refused because the range is past the end or empty. -/
theorem ofLines_eq (path : String) {lines : List (List Char)} (h : 1 ≤ lines.length) (start : Nat) (stop : Option Nat) :
    ofLines path lines start stop =
      if lines.length < firstLine start then .error (.invalidQuery (.pastEnd (firstLine start) path lines.length))
      else if lastLine lines.length stop < firstLine start then
        .error (.invalidQuery (.emptyRange (firstLine start) (lastLine lines.length stop)))
      else .ok (page path lines (firstLine start) (lastLine lines.length stop)) := by
  have hfirst : 1 ≤ firstLine start := Nat.le_max_right _ _
  have hsome : ¬ lines.length = 0 := by omega
  have hrows : numberedFrom (firstLine start)
      (slice (firstLine start) (min (lastLine lines.length stop) (firstLine start + maxLines - 1)) lines) =
      (lineRange (firstLine start) (min (lastLine lines.length stop) (firstLine start + maxLines - 1)) lines).map row :=
    numberedFrom_slice hfirst
  unfold firstLine lastLine at hrows ⊢
  simp only [ofLines, hsome, if_false, page, hrows]

end Snippet

/-! ## Requests -/

namespace Tree

open Snippet

/-- The file at a path has these lines. -/
def HasLines (t : Tree) (path : String) (lines : List (List Char)) : Prop :=
  ∃ text, t.readText path = .ok text ∧ Text.lines text.toList = lines

variable {t : Tree} {path : String} {lines : List (List Char)} {start : Nat} {stop : Option Nat}

theorem HasLines.feed_not_mem (h : t.HasLines path lines) : ∀ line ∈ lines, '\n' ∉ line := by
  obtain ⟨text, -, rfl⟩ := h
  exact fun _ => feed_not_mem_lines

theorem HasLines.snippet_eq (h : t.HasLines path lines) (start : Nat) (stop : Option Nat) :
    t.snippet path start stop = ofLines path lines start stop := by
  obtain ⟨text, hread, rfl⟩ := h
  rw [snippet, hread]

/-- A request within the file is answered with the snippet of its range. -/
theorem snippet_eq_page (h : t.HasLines path lines) (hsome : 1 ≤ lines.length)
    (hwithin : firstLine start ≤ lines.length) (hrange : firstLine start ≤ lastLine lines.length stop) :
    t.snippet path start stop = .ok (page path lines (firstLine start) (lastLine lines.length stop)) := by
  rw [h.snippet_eq, ofLines_eq path hsome, if_neg (Nat.not_lt.2 hwithin), if_neg (Nat.not_lt.2 hrange)]

theorem exists_snippet_iff (h : t.HasLines path lines) (hsome : 1 ≤ lines.length) (start : Nat) (stop : Option Nat) :
    (∃ page, t.snippet path start stop = .ok page) ↔
      firstLine start ≤ lines.length ∧ firstLine start ≤ lastLine lines.length stop := by
  constructor
  · rintro ⟨answer, hanswer⟩
    rw [h.snippet_eq, ofLines_eq path hsome] at hanswer
    split at hanswer
    · cases hanswer
    · next hwithin =>
        split at hanswer
        · cases hanswer
        · next hrange => exact ⟨Nat.not_lt.1 hwithin, Nat.not_lt.1 hrange⟩
  · rintro ⟨hwithin, hrange⟩
    exact ⟨_, snippet_eq_page h hsome hwithin hrange⟩

/-- There is one way to page through a file. -/
theorem Pages.eq {pages others : List Snippet} (h : t.Pages path stop start pages)
    (h' : t.Pages path stop start others) : others = pages := by
  induction h generalizing others with
  | last answer whole =>
      cases h' with
      | last answer' => rw [Except.ok.inj (answer'.symm.trans answer)]
      | more answer' cut =>
          rw [Except.ok.inj (answer'.symm.trans answer), whole] at cut
          cases cut
  | more answer cut following ih =>
      cases h' with
      | last answer' whole =>
          rw [Except.ok.inj (answer'.symm.trans answer), cut] at whole
          cases whole
      | more answer' _ following' =>
          obtain rfl := Except.ok.inj (answer'.symm.trans answer)
          rw [ih following']

/-- Asking again comes to an end, and all rows together are those of the range. -/
theorem exists_pages (h : t.HasLines path lines) (hsome : 1 ≤ lines.length)
    (hwithin : firstLine start ≤ lines.length) (hrange : firstLine start ≤ lastLine lines.length stop) :
    ∃ pages, t.Pages path stop start pages ∧
      pages.flatMap rows = (lineRange (firstLine start) (lastLine lines.length stop) lines).map row := by
  -- each request starts nearer to the end of the range
  induction hleft : lastLine lines.length stop - firstLine start using Nat.strongRecOn generalizing start with
  | _ left ih =>
      have hmost : 1 ≤ maxLines := by decide
      have hfirst : 1 ≤ firstLine start := Nat.le_max_right _ _
      have htotal : lastLine lines.length stop ≤ lines.length := Nat.min_le_right _ _
      have hanswer : t.snippet path start stop = _ := snippet_eq_page h hsome hwithin hrange
      have hrows := rows_page path h.feed_not_mem hfirst hrange hwithin
      by_cases hcut : firstLine start + maxLines - 1 < lastLine lines.length stop
      · have hend : min (lastLine lines.length stop) (firstLine start + maxLines - 1) =
            firstLine start + maxLines - 1 := by omega
        have hnext : firstLine (firstLine start + maxLines - 1 + 1) = firstLine start + maxLines - 1 + 1 :=
          Nat.max_eq_left (by omega)
        have hnearer : lastLine lines.length stop - firstLine (firstLine start + maxLines - 1 + 1) < left := by
          rw [hnext]
          omega
        obtain ⟨rest, hrest, hrestRows⟩ := ih _ hnearer (by rw [hnext]; omega) (by rw [hnext]; omega) rfl
        rw [hend] at hrows
        refine ⟨_ :: rest, .more hanswer ?_ ?_, ?_⟩
        · simpa [page, hend] using hcut
        · change t.Pages path stop (min (lastLine lines.length stop) (firstLine start + maxLines - 1) + 1) rest
          rw [hend]
          exact hrest
        · rw [List.flatMap_cons, hrows, hrestRows, hnext, ← List.map_append,
            lineRange_append hfirst (by omega) (by omega) (by omega)]
      · have hend : min (lastLine lines.length stop) (firstLine start + maxLines - 1) =
            lastLine lines.length stop := by omega
        refine ⟨[_], .last hanswer (by simp [page, hend]), ?_⟩
        rw [List.flatMap_cons, List.flatMap_nil, List.append_nil, hrows, hend]

/-- Take a file that has lines, few enough to be counted in 32 bits. A request is answered just if it starts within the
file and its range is not empty. The answer has the lines of the range with their numbers, as far as a snippet goes, and
says whether that is short of the range; no number in it passes 32 bits. Asking again from the next line as long as the
answer was cut short comes to an end, in one way, and gives every line of the range once and in order. -/
theorem snippet_pages (h : t.HasLines path lines) (hsome : 1 ≤ lines.length) (hbound : lines.length < UInt32.size - 400)
    (start : Nat) (stop : Option Nat) :
    ((∃ page, t.snippet path start stop = .ok page) ↔
      firstLine start ≤ lines.length ∧ firstLine start ≤ lastLine lines.length stop) ∧
    (∀ page, t.snippet path start stop = .ok page →
      page.path = path ∧ page.totalLines = lines.length ∧ page.startLine = firstLine start ∧
        page.endLine = min (lastLine lines.length stop) (firstLine start + 399) ∧
        page.rows = (lineRange page.startLine page.endLine lines).map row ∧
        (page.truncated = true ↔ page.endLine < lastLine lines.length stop) ∧ page.startLine + 400 < UInt32.size) ∧
    (firstLine start ≤ lines.length → firstLine start ≤ lastLine lines.length stop →
      ∃ pages, t.Pages path stop start pages ∧ (∀ others, t.Pages path stop start others → others = pages) ∧
        pages.flatMap rows = (lineRange (firstLine start) (lastLine lines.length stop) lines).map row) := by
  refine ⟨exists_snippet_iff h hsome start stop, ?_, ?_⟩
  · intro answer hanswer
    obtain ⟨hwithin, hrange⟩ := (exists_snippet_iff h hsome start stop).1 ⟨answer, hanswer⟩
    rw [snippet_eq_page h hsome hwithin hrange] at hanswer
    obtain rfl := Except.ok.inj hanswer
    refine ⟨rfl, rfl, rfl, rfl, rows_page path h.feed_not_mem (Nat.le_max_right _ _) hrange hwithin, decide_eq_true_iff, ?_⟩
    change firstLine start + 400 < UInt32.size
    omega
  · intro hwithin hrange
    obtain ⟨pages, hpages, hrows⟩ := exists_pages h hsome hwithin hrange
    exact ⟨pages, hpages, fun _ h => hpages.eq h, hrows⟩

/-- The last two of three lines are one snippet. -/
theorem snippet_pages_two_lines :
    let t : Tree := { root := "/app", files := [(["a.rb"], ⟨Text.encode "class A\n  B = 1\nend\n", 0⟩)] }
    t.HasLines "a.rb" ["class A".toList, "  B = 1".toList, "end".toList] ∧
      ∃ pages, t.Pages "a.rb" none 2 pages ∧
        pages.flatMap rows = ["    2    B = 1".toList, "    3  end".toList] := by
  intro t
  have h : t.HasLines "a.rb" ["class A".toList, "  B = 1".toList, "end".toList] :=
    ⟨"class A\n  B = 1\nend\n", by decide +kernel, by decide +kernel⟩
  obtain ⟨pages, hpages, -, hrows⟩ := (snippet_pages h (by decide) (by decide) 2 none).2.2 (by decide) (by decide)
  exact ⟨h, pages, hpages, hrows.trans (by decide +kernel)⟩

end Tree

end CodeAtlas
