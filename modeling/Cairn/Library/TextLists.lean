import Mathlib.Algebra.Order.Ring.Nat
import Mathlib.Data.List.Basic

/-!
Owns texts as lists of characters: their prefixes, the words between white space and the
lines between line ends, with the rules that relate a split to what it was split from.
-/

set_option autoImplicit false

namespace Cairn.Library.TextLists

abbrev Text := List Char

instance lawfulText : LawfulBEq Text := inferInstance

/-- `str::len`: the length in UTF-8. -/
def byteLength (text : Text) : Nat := (text.map Char.utf8Size).sum

/-! ### Prefixes -/

/-- `str::strip_prefix`. -/
def stripPrefix : Text → Text → Option Text
  | [], text => some text
  | _ :: _, [] => none
  | expected :: start, char :: text => if expected = char then stripPrefix start text else none

theorem stripPrefix_eq_some {start text rest : Text} :
    stripPrefix start text = some rest ↔ text = start ++ rest := by
  induction start generalizing text with
  | nil => exact Option.some_inj
  | cons expected start inductionHypothesis =>
      cases text with
      | nil => exact ⟨fun impossible => (nomatch impossible), fun impossible => (nomatch impossible)⟩
      | cons char text =>
          rw [stripPrefix]
          by_cases same : expected = char
          · subst same
            rw [if_pos rfl, inductionHypothesis, List.cons_append, List.cons_inj_right]
          · rw [if_neg same]
            refine ⟨fun impossible => (nomatch impossible), fun equal => ?_⟩
            exact absurd (List.cons.inj equal).1.symm same

theorem stripPrefix_append (start rest : Text) : stripPrefix start (start ++ rest) = some rest :=
  stripPrefix_eq_some.mpr rfl

/-- `str::starts_with`. -/
def startsWith (start text : Text) : Bool := (stripPrefix start text).isSome

theorem startsWith_iff {start text : Text} : startsWith start text ↔ ∃ rest, text = start ++ rest := by
  rw [startsWith, Option.isSome_iff_exists]
  exact exists_congr fun rest => stripPrefix_eq_some

/-! ### Splitting -/

section

variable {Item : Type} {keep other : Item → Bool}

/-- A split only looks at the items that are there. -/
theorem splitOnP_congr {items : List Item} (agree : ∀ item ∈ items, keep item = other item) :
    items.splitOnP keep = items.splitOnP other := by
  induction items with
  | nil => rfl
  | cons item rest inductionHypothesis =>
      rw [List.splitOnP_cons_eq_if_modifyHead, List.splitOnP_cons_eq_if_modifyHead, agree item List.mem_cons_self,
        inductionHypothesis fun later member => agree later (List.mem_cons_of_mem _ member)]

/-- An item of a text with separators is a separator or stands in a part. -/
theorem mem_of_splitOn [DecidableEq Item] {items : List Item} (separator : Item) {item : Item}
    (member : item ∈ items) : item = separator ∨ ∃ part ∈ items.splitOn separator, item ∈ part := by
  rw [← @List.intercalate_splitOn _ items _ _ separator] at member
  generalize items.splitOn separator = parts at member
  induction parts with
  | nil => contradiction
  | cons part rest inductionHypothesis =>
      cases rest with
      | nil =>
          rw [List.intercalate_singleton] at member
          exact .inr ⟨part, List.mem_cons_self, member⟩
      | cons next rest =>
          rw [List.intercalate_cons_cons, List.mem_append, List.mem_append,
            List.mem_singleton] at member
          rcases member with (here | same) | later
          · exact .inr ⟨part, List.mem_cons_self, here⟩
          · exact .inl same
          · rcases inductionHypothesis later with same | ⟨found, inside, there⟩
            · exact .inl same
            · exact .inr ⟨found, List.mem_cons_of_mem _ inside, there⟩

/-- A start without separators belongs to the first part. -/
theorem splitOn_append_of_not_mem [DecidableEq Item] {start items : List Item} {separator : Item}
    (free : separator ∉ start) :
    (start ++ items).splitOn separator = (items.splitOn separator).modifyHead (start ++ ·) := by
  induction start with
  | nil =>
      rw [List.nil_append]
      cases items.splitOn separator with
      | nil => rfl
      | cons first rest => rfl
  | cons item start inductionHypothesis =>
      rw [List.mem_cons, not_or] at free
      have different : ¬ (item == separator) := by
        rw [beq_iff_eq]
        exact fun same => free.1 same.symm
      rw [List.cons_append, List.splitOn_cons_eq_if_modifyHead, if_neg different,
        inductionHypothesis free.2]
      cases items.splitOn separator with
      | nil => rfl
      | cons first rest => rfl

/-- No part contains the separator. -/
theorem not_mem_of_mem_splitOn [DecidableEq Item] {items part : List Item} {separator : Item}
    (member : part ∈ items.splitOn separator) : separator ∉ part := by
  induction items generalizing part with
  | nil =>
      rw [List.splitOn_nil, List.mem_singleton] at member
      rw [member]
      exact List.not_mem_nil
  | cons item rest inductionHypothesis =>
      rw [List.splitOn_cons_eq_if_modifyHead] at member
      split at member
      · rcases List.mem_cons.mp member with rfl | later
        · exact List.not_mem_nil
        · exact inductionHypothesis later
      · rename_i different
        cases parts : rest.splitOn separator with
        | nil => exact absurd parts (List.splitOn_ne_nil separator rest)
        | cons head tail =>
            rw [parts] at member inductionHypothesis
            rw [List.modifyHead_cons] at member
            rcases List.mem_cons.mp member with rfl | later
            · have distinct : separator ≠ item := fun same => different (by simp [same])
              simpa [distinct] using inductionHypothesis List.mem_cons_self
            · exact inductionHypothesis (List.mem_cons_of_mem _ later)

/-- Each part was parsed where all parts were. -/
theorem isSome_of_mapM {Value : Type} {parse : Item → Option Value} {items : List Item}
    {values : List Value} (parsed : items.mapM parse = some values) :
    ∀ item ∈ items, (parse item).isSome := by
  induction items generalizing values with
  | nil => exact fun item impossible => (nomatch impossible)
  | cons item rest inductionHypothesis =>
      rw [List.mapM_cons] at parsed
      obtain ⟨value, first, parsed⟩ := Option.bind_eq_some_iff.mp parsed
      obtain ⟨others, later, _⟩ := Option.bind_eq_some_iff.mp parsed
      intro found member
      rcases List.mem_cons.mp member with rfl | behind
      · rw [first]
        rfl
      · exact inductionHypothesis later found behind

/-- Images of parts and of what was parsed from them. -/
theorem map_eq_of_mapM {Value Image : Type} {parse : Item → Option Value} {items : List Item}
    {values : List Value} {before : Item → Image} {after : Value → Image}
    (agree : ∀ item value, parse item = some value → before item = after value)
    (parsed : items.mapM parse = some values) : items.map before = values.map after := by
  induction items generalizing values with
  | nil =>
      cases parsed
      rfl
  | cons item rest inductionHypothesis =>
      rw [List.mapM_cons] at parsed
      obtain ⟨value, first, parsed⟩ := Option.bind_eq_some_iff.mp parsed
      obtain ⟨others, later, same⟩ := Option.bind_eq_some_iff.mp parsed
      cases same
      rw [List.map_cons, List.map_cons, agree item value first, inductionHypothesis later]

end

/-- `char::is_ascii_whitespace`. -/
def isAsciiWhitespace (char : Char) : Bool :=
  char == ' ' || char == '\t' || char == '\n' || char == '\r' || char == '\x0c'

/-- The words between white space. -/
def wordsBetween (space : Char → Bool) (text : Text) : List Text :=
  (text.splitOnP space).filter fun word => word ≠ []

/-- `str::split_ascii_whitespace`. -/
def splitAsciiWhitespace (text : Text) : List Text := wordsBetween isAsciiWhitespace text

/-- Where blanks are the only white space, a split at white space is one at blanks. -/
theorem splitOnP_eq_splitOn {space : Char → Bool} {text : Text} (blank : space ' ')
    (visible : ∀ char ∈ text, space char → char = ' ') : text.splitOnP space = text.splitOn ' ' := by
  rw [List.splitOn_eq_splitOnP]
  refine splitOnP_congr fun char member => ?_
  by_cases same : char = ' '
  · rw [same, blank]
    rfl
  · have dark : space char = false := Bool.eq_false_iff.mpr fun white => same (visible char member white)
    rw [dark]
    exact (beq_eq_false_iff_ne.mpr same).symm

/-! ### Lines -/

/-- A line without the carriage return before its line feed. -/
def stripReturn (line : Text) : Text := if line.getLast? = some '\r' then line.dropLast else line

/-- `str::lines`. -/
def lines (text : Text) : List Text :=
  let parts := text.splitOn '\n'
  parts.dropLast.map stripReturn ++ (parts.getLast?.filter fun last => last ≠ []).toList

/-- The line end of HTTP and SDP. -/
def crlf : Text := ['\r', '\n']

/-- `lines.join("\r\n") + "\r\n"`. -/
def joinLines (lines : List Text) : Text := crlf.intercalate lines ++ crlf

theorem joinLines_cons_cons (line next : Text) (rest : List Text) :
    joinLines (line :: next :: rest) = line ++ crlf ++ joinLines (next :: rest) := by
  rw [joinLines, joinLines, List.intercalate_cons_cons, List.append_assoc]

theorem splitOn_joinLines {list : List Text} (some_line : list ≠ [])
    (single : ∀ line ∈ list, '\n' ∉ line) :
    (joinLines list).splitOn '\n' = list.map (· ++ ['\r']) ++ [[]] := by
  have ends : ∀ line rest : Text, '\n' ∉ line →
      (line ++ crlf ++ rest).splitOn '\n' = (line ++ ['\r']) :: rest.splitOn '\n' := by
    intro line rest free
    have cut : line ++ crlf ++ rest = (line ++ ['\r']) ++ '\n' :: rest := by simp [crlf]
    rw [cut, List.splitOn_append_cons_self_of_not_mem (by simpa using free)]
  induction list with
  | nil => contradiction
  | cons line rest inductionHypothesis =>
      have free := single line List.mem_cons_self
      cases rest with
      | nil =>
          have alone : joinLines [line] = line ++ crlf ++ [] := by simp [joinLines]
          rw [alone, ends line [] free]
          rfl
      | cons next rest =>
          rw [joinLines_cons_cons, ends line _ free,
            inductionHypothesis (by simp) fun other member =>
              single other (List.mem_cons_of_mem _ member)]
          rfl

/-- Joined lines are read back. -/
theorem lines_joinLines {list : List Text} (some_line : list ≠ [])
    (single : ∀ line ∈ list, '\n' ∉ line) : lines (joinLines list) = list := by
  rw [lines, splitOn_joinLines some_line single, List.dropLast_concat, List.getLast?_concat]
  simp [stripReturn, Function.comp_def]

/-- The first line of a text. -/
theorem lines_append_crlf {line rest : Text} (free : '\n' ∉ line) :
    lines (line ++ crlf ++ rest) = line :: lines rest := by
  have cut : line ++ crlf ++ rest = (line ++ ['\r']) ++ '\n' :: rest := by simp [crlf]
  rw [lines, lines, cut, List.splitOn_append_cons_self_of_not_mem (by simpa using free)]
  cases parts : rest.splitOn '\n' with
  | nil => exact absurd parts (List.splitOn_ne_nil '\n' rest)
  | cons first others =>
      rw [List.dropLast_cons_cons, List.getLast?_cons_cons, List.map_cons, List.cons_append]
      simp [stripReturn]

/-- The lines that are kept among joined parts are the parts that are kept. -/
theorem filter_lines_intercalate {parts : List Text} (keep : Text → Bool) (empty : keep [] = false)
    (single : ∀ part ∈ parts, '\n' ∉ part) :
    (lines (crlf.intercalate parts)).filter keep = parts.filter keep := by
  induction parts with
  | nil => rfl
  | cons part rest inductionHypothesis =>
      have free := single part List.mem_cons_self
      cases rest with
      | nil =>
          rw [List.intercalate_singleton, lines, List.splitOn_eq_singleton free]
          cases part with
          | nil => exact (List.filter_cons_of_neg (by rw [empty]; exact Bool.false_ne_true)).symm
          | cons char part => rfl
      | cons next rest =>
          rw [List.intercalate_cons_cons, lines_append_crlf free, List.filter_cons, List.filter_cons,
            inductionHypothesis fun other member => single other (List.mem_cons_of_mem _ member)]

theorem stripReturn_subset (line : Text) : stripReturn line ⊆ line := by
  unfold stripReturn
  split
  · exact List.dropLast_subset line
  · exact List.Subset.refl line

/-- No line contains a line feed. -/
theorem not_mem_lines {text line : Text} (member : line ∈ lines text) : '\n' ∉ line := by
  rcases List.mem_append.mp member with ended | last
  · obtain ⟨part, inside, rfl⟩ := List.mem_map.mp ended
    exact fun feed => not_mem_of_mem_splitOn (List.dropLast_subset _ inside)
      (stripReturn_subset part feed)
  · obtain ⟨found, _⟩ := Option.filter_eq_some_iff.mp (Option.mem_toList.mp last)
    exact not_mem_of_mem_splitOn (List.mem_of_getLast? found)

end Cairn.Library.TextLists
