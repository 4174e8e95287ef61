import ThreeAddress.Proofs.Report

/-!
# Reports on any span

A span may be reversed, reach behind the end of its source or begin and end inside characters.  The report on it
still quotes a line of the source, with a caret or with carets that do not leave that line (`show_any_span`).

A spot can also be found with byte positions alone (`Spot.cut?`): where the line begins, where it ends, and the text
between the two, cut out of the source.  Such a cut fails at a position that is not between two characters.

* `lineReached_eq`: a walk over the source finds the byte position at which a line begins;
* `lineFrom?_append`: the cuts behind such a position exist;
* `Spot.cut?_eq_find`: no cut fails, and the spot is the same;
* `Spot.quotes_find`: the spot of any position quotes the line on which the position falls.
-/

namespace ThreeAddress

/-! ### Lines by byte positions -/

/-- The characters of a text, each with the byte position at which it begins. -/
def charIndices (start : Nat) : List Char → List (Nat × Char)
  | [] => []
  | c :: text => (start, c) :: charIndices (start + c.utf8Size) text

/-- The number of the line that is reached behind one more character, and the byte position at which it begins. -/
def countLine (reached : Nat × Nat) (next : Nat × Char) : Nat × Nat :=
  if next.2 = '\n' then (reached.1 + 1, next.1 + 1) else reached

/-- The number of the line on which a byte position falls, and the byte position at which that line begins. -/
def lineReached (source : List Char) (position : Nat) : Nat × Nat :=
  ((charIndices 0 source).takeWhile (·.1 < position)).foldl countLine (1, 0)

/-- The byte position of the first line end in a text that begins at `start`. -/
def lineEnd? (start : Nat) (text : List Char) : Option Nat :=
  ((charIndices start text).find? (·.2 = '\n')).map Prod.fst

/-- The line that begins at a byte position, by two cuts: all the source behind the position, to look for the end of
the line there, and then the line. -/
def lineFrom? (source : List Char) (start : Nat) : Option (List Char) := do
  let rest ← slice? source start (byteLength source)
  slice? source start ((lineEnd? start rest).getD (byteLength source))

/-- The spot of a byte position, unless a cut of the source fails. -/
def Spot.cut? (source : List Char) (position : Nat) : Option Spot := do
  let position := min position (byteLength source)
  let (line, start) := lineReached source position
  let column := ((slice? source start position).map List.length).getD 0 + 1
  let content ← lineFrom? source start
  return ⟨line, column, trimReturns content⟩

/-! ### Walks over a text -/

private theorem charIndices_append (start : Nat) (a b : List Char) :
    charIndices start (a ++ b) = charIndices start a ++ charIndices (start + byteLength a) b := by
  induction a generalizing start with
  | nil => rfl
  | cons c a ih => simp [charIndices, ih, Nat.add_assoc]

private theorem splitBefore_fst_append_snd (n : Nat) (text : List Char) :
    (splitBefore n text).1 ++ (splitBefore n text).2 = text := by
  induction text generalizing n with
  | nil => cases n <;> rfl
  | cons c text ih =>
    cases n with
    | zero => rfl
    | succ n => simp [splitBefore, ih]

/-- A position behind the end of a text counts as its end. -/
private theorem splitBefore_min (n : Nat) (text : List Char) :
    splitBefore (min n (byteLength text)) text = splitBefore n text := by
  induction text generalizing n with
  | nil => cases n <;> rfl
  | cons c text ih =>
    cases n with
    | zero => rw [Nat.zero_min]
    | succ n =>
      have hpos := c.utf8Size_pos
      obtain ⟨m, hm⟩ : ∃ m, min (n + 1) (byteLength (c :: text)) = m + 1 := by
        rw [byteLength_cons]
        exact ⟨_, (Nat.succ_pred (by omega)).symm⟩
      have hrest : m + 1 - c.utf8Size = min (n + 1 - c.utf8Size) (byteLength text) := by
        rw [byteLength_cons] at hm
        omega
      rw [hm, splitBefore, splitBefore, hrest, ih]

/-- A walk up to a byte position meets the characters that begin before it. -/
private theorem takeWhile_charIndices (n start : Nat) (text : List Char) :
    (charIndices start text).takeWhile (·.1 < start + n) = charIndices start (splitBefore n text).1 := by
  induction text generalizing n start with
  | nil => cases n <;> rfl
  | cons c text ih =>
    cases n with
    | zero => simp [charIndices, splitBefore]
    | succ n =>
      rw [charIndices, List.takeWhile_cons_of_pos (by simp), splitBefore, charIndices]
      rcases Nat.le_total c.utf8Size (n + 1) with hinside | hbeyond
      · rw [← ih (n + 1 - c.utf8Size) (start + c.utf8Size)]
        have hsame : start + c.utf8Size + (n + 1 - c.utf8Size) = start + (n + 1) := by omega
        rw [hsame]
      · -- the position is inside `c` or right behind it, so nothing more is met
        rw [Nat.sub_eq_zero_of_le hbeyond]
        cases text with
        | nil => rfl
        | cons d text =>
          rw [charIndices, List.takeWhile_cons_of_neg (by simpa using by omega)]
          rfl

/-- A walk over a text ends on the last line of it. -/
private theorem foldl_countLine (text : List Char) : ∃ front, text = front ++ lastLine text ∧
    (charIndices 0 text).foldl countLine (1, 0) = (newlines text + 1, byteLength front) := by
  induction text using List.reverseRecOn with
  | nil => exact ⟨[], rfl, rfl⟩
  | append_singleton text c ih =>
    obtain ⟨front, htext, hwalk⟩ := ih
    rw [charIndices_append, List.foldl_append, hwalk, lastLine_concat, newlines_append]
    by_cases hc : c = '\n'
    · subst hc
      have hsize : '\n'.utf8Size = 1 := rfl
      exact ⟨text ++ ['\n'], by simp, by simp [charIndices, countLine, newlines, hsize]⟩
    · refine ⟨front, ?_, ?_⟩
      · rw [if_neg hc, ← List.append_assoc, ← htext]
      · simp [charIndices, countLine, newlines, hc]

/-! ### Cuts -/

private theorem lineEnd?_getD (start : Nat) (text : List Char) :
    (lineEnd? start text).getD (start + byteLength text) =
      start + byteLength (text.takeWhile (· ≠ '\n')) := by
  induction text generalizing start with
  | nil => rfl
  | cons c text ih =>
    by_cases hc : c = '\n'
    · simp [lineEnd?, charIndices, hc]
    · have hnext := ih (start + c.utf8Size)
      rw [lineEnd?] at hnext
      rw [lineEnd?, charIndices, List.find?_cons_of_neg (by simpa using hc),
        List.takeWhile_cons_of_pos (by simpa using hc), byteLength_cons, byteLength_cons, ← Nat.add_assoc, hnext,
        Nat.add_assoc]

theorem lineFrom?_append (front text : List Char) :
    lineFrom? (front ++ text) (byteLength front) = some (text.takeWhile (· ≠ '\n')) := by
  have hrest : slice? (front ++ text) (byteLength front) (byteLength (front ++ text)) = some text := by
    simpa using slice?_append front text []
  have hline := slice?_append front (text.takeWhile (· ≠ '\n')) (text.dropWhile (· ≠ '\n'))
  rw [List.takeWhile_append_dropWhile, byteLength_append] at hline
  rw [lineFrom?, hrest, Option.bind_eq_bind, Option.bind_some, byteLength_append, lineEnd?_getD, hline]

/-- A stretch of a text ends behind whole characters. -/
private theorem byteLength_splitBefore_of_slice? {text inside : List Char} {start stop : Nat}
    (h : slice? text start stop = some inside) : byteLength (splitBefore stop text).1 = stop := by
  rw [slice?] at h
  split at h
  case isFalse => cases h
  case isTrue hle =>
    obtain ⟨⟨before, rest⟩, hbefore, h⟩ := Option.bind_eq_some_iff.1 h
    obtain ⟨⟨inside', after⟩, hinside, -⟩ := Option.bind_eq_some_iff.1 h
    obtain ⟨rfl, hstart⟩ := splitAtByte?_eq_some hbefore
    obtain ⟨rfl, hlength⟩ := splitAtByte?_eq_some hinside
    have hstop : stop = byteLength (before ++ inside') := by
      rw [byteLength_append]
      omega
    rw [hstop, ← List.append_assoc, splitBefore_append]

private theorem newline_notMem_lastLine (text : List Char) : '\n' ∉ lastLine text := by
  intro h
  simpa using List.mem_takeWhile_imp (List.mem_reverse.1 h)

/-! ### The line of a position -/

section Cut

variable {source before after : List Char} {position : Nat}

private theorem eq_append_of_splitBefore (hcut : splitBefore position source = (before, after)) :
    source = before ++ after := by
  rw [← splitBefore_fst_append_snd position source, hcut]

/-- The line of a position begins behind the last line end before the position. -/
theorem lineReached_eq (hcut : splitBefore position source = (before, after)) :
    ∃ front, before = front ++ lastLine before ∧
      lineReached source position = (newlines before + 1, byteLength front) := by
  have hwalk := takeWhile_charIndices position 0 source
  rw [Nat.zero_add, hcut] at hwalk
  rw [lineReached, hwalk]
  exact foldl_countLine before

/-- Both cuts of the line exist, wherever on it the position is. -/
private theorem lineFrom?_lineReached (hcut : splitBefore position source = (before, after)) :
    lineFrom? source (lineReached source position).2 = some (lastLine before ++ after.takeWhile (· ≠ '\n')) := by
  obtain ⟨front, hfront, hline⟩ := lineReached_eq hcut
  have hlast : ∀ c ∈ lastLine before, decide (c ≠ '\n') = true := by
    intro c hc
    simpa using ne_of_mem_of_not_mem hc (newline_notMem_lastLine before)
  have hsource : source = front ++ (lastLine before ++ after) := by
    rw [← List.append_assoc, ← hfront]
    exact eq_append_of_splitBefore hcut
  rw [hline, hsource, lineFrom?_append, List.takeWhile_append_of_pos hlast]

/-- The column of a position, by a cut from the beginning of its line. -/
private theorem length_slice?_lineReached (hcut : splitBefore position source = (before, after)) :
    ((slice? source (lineReached source position).2 position).map List.length).getD 0 + 1 =
      if byteLength before = position then (lastLine before).length + 1 else 1 := by
  obtain ⟨front, hfront, hline⟩ := lineReached_eq hcut
  rw [hline]
  by_cases hwhole : byteLength before = position
  · have hslice := slice?_append front (lastLine before) after
    rw [← List.append_assoc, ← hfront, ← eq_append_of_splitBefore hcut, hwhole] at hslice
    rw [hslice, if_pos hwhole]
    rfl
  · -- the position is inside a character, where no stretch of the source ends
    have hnone : slice? source (byteLength front) position = none := by
      rw [Option.eq_none_iff_forall_ne_some]
      intro inside hinside
      apply hwhole
      have hstop := byteLength_splitBefore_of_slice? hinside
      rwa [hcut] at hstop
    rw [hnone, if_neg hwhole]
    rfl

/-- No cut fails, and the cuts find the spot. -/
theorem Spot.cut?_eq_find (source : List Char) (position : Nat) :
    Spot.cut? source position = some (Spot.find source position) := by
  obtain ⟨⟨before, after⟩, hcut⟩ : ∃ cut, splitBefore position source = cut := ⟨_, rfl⟩
  have hclamped : splitBefore (min position (byteLength source)) source = (before, after) := by
    rw [splitBefore_min, hcut]
  obtain ⟨front, -, hline⟩ := lineReached_eq hclamped
  have hcolumn := length_slice?_lineReached hclamped
  have hcontent := lineFrom?_lineReached hclamped
  rw [hline] at hcolumn hcontent
  rw [Spot.cut?, Spot.find, hcut]
  simp only [hline, hcolumn, hcontent, Option.bind_eq_bind, Option.bind_some]
  rfl

end Cut

/-! ### Quoted lines -/

/-- The first byte of a character tells whether the character ends a line. -/
private theorem count_take_utf8EncodeChar (n : Nat) (c : Char) :
    ((String.utf8EncodeChar c).take (n + 1)).count 10 = newlines [c] := by
  by_cases hc : c = '\n'
  · subst hc
    have hbytes : String.utf8EncodeChar '\n' = [10] := by decide
    rw [hbytes, List.take_succ_cons, List.take_nil]
    rfl
  · have hall := count_flatMap_utf8EncodeChar [c]
    rw [List.flatMap_singleton] at hall
    have hnone : newlines [c] = 0 := by simp [newlines, hc]
    have hle := (List.take_sublist (n + 1) (String.utf8EncodeChar c)).count_le 10
    omega

/-- The bytes that end lines before any byte position, which may be inside a character. -/
private theorem count_take_flatMap_utf8EncodeChar (n : Nat) (text : List Char) :
    ((text.flatMap String.utf8EncodeChar).take n).count 10 = newlines (splitBefore n text).1 := by
  induction text generalizing n with
  | nil => cases n <;> rfl
  | cons c text ih =>
    cases n with
    | zero => rfl
    | succ n =>
      rw [List.flatMap_cons, List.take_append, List.count_append, count_take_utf8EncodeChar,
        String.length_utf8EncodeChar, ih, splitBefore, ← newlines_append, List.singleton_append]

/-- The spot quotes the line of a source on which a byte position falls, with carets that stay below that line. -/
structure Spot.Quotes (spot : Spot) (source : String) (position carets : Nat) (line : List Char) : Prop where
  /-- The source can be cut where the line begins, and the line can be cut out of it. -/
  line_cut : lineFrom? source.toList (lineReached source.toList (min position source.utf8ByteSize)).2 = some line
  /-- The lines before it are those that end before the position. -/
  line_number : spot.line = 1 + (source.toUTF8.data.toList.take (min position source.utf8ByteSize)).count 10
  line_eq : (sourceLines source.toList)[spot.line - 1]? = some line
  /-- The line is shown without the carriage returns at its end. -/
  content_eq : ∃ n, line = spot.content ++ List.replicate n '\r'
  content_trimmed : spot.content.getLast? ≠ some '\r'
  /-- The column is that of a character of the line, or one behind the last. -/
  column_bounds : 1 ≤ spot.column ∧ spot.column ≤ 1 + line.length
  /-- There is a caret, and if there are more, all of them stand below what is shown of the line. -/
  carets_pos : 1 ≤ carets
  carets_inside : carets ≠ 1 → spot.column - 1 + carets ≤ spot.content.length

theorem Spot.quotes_find (source : String) (span : Span) : ∃ line,
    (Spot.find source.toList span.start).Quotes source span.start
      ((Spot.find source.toList span.start).carets source.toList span) line := by
  obtain ⟨⟨before, after⟩, hcut⟩ : ∃ cut, splitBefore span.start source.toList = cut := ⟨_, rfl⟩
  have hclamped : splitBefore (min span.start source.utf8ByteSize) source.toList = (before, after) := by
    rw [← byteLength_toList, splitBefore_min, hcut]
  have hnumber : (Spot.find source.toList span.start).line = newlines before + 1 := by
    rw [Spot.find, hcut]
  have hcontent : (Spot.find source.toList span.start).content =
      trimReturns (lastLine before ++ after.takeWhile (· ≠ '\n')) := by
    rw [Spot.find, hcut]
  refine ⟨lastLine before ++ after.takeWhile (· ≠ '\n'), lineFrom?_lineReached hclamped, ?_, ?_, ?_, ?_, ?_, ?_, ?_⟩
  · rw [hnumber, toUTF8_eq_flatMap, count_take_flatMap_utf8EncodeChar, hclamped, Nat.add_comm]
  · obtain ⟨lines, hlines, hlength, -⟩ := sourceLines_append before after
    obtain ⟨more, hmore⟩ := exists_sourceLines after
    rw [hnumber, eq_append_of_splitBefore hcut, hlines, hmore, ← hlength]
    simp
  · rw [hcontent]
    exact exists_eq_trimReturns_append _
  · rw [hcontent]
    exact getLast?_trimReturns _
  · rw [Spot.find, hcut]
    dsimp only
    split
    · rw [List.length_append]
      omega
    · omega
  · exact Nat.le_max_left _ _
  · intro hmore
    unfold Spot.carets at hmore ⊢
    dsimp only at hmore ⊢
    omega

-- a reversed span that begins inside a character, and one behind the end of a source that ends in carriage returns
example :
    let source := "é\n€\r\r".toList
    Spot.cut? source 4 = some ⟨2, 1, "€".toList⟩ ∧ (Spot.find source 4).carets source ⟨4, 1⟩ = 1 ∧
      Spot.cut? source 90 = some ⟨2, 4, "€".toList⟩ ∧ (Spot.find source 90).carets source ⟨90, 99⟩ = 1 := by
  decide

end ThreeAddress
