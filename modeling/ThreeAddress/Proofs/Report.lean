import Mathlib.Data.List.Induction
import ThreeAddress.Proofs.Program.Recovery
import ThreeAddress.Report

/-!
# Reports point at the right place

A report on an error of a source shows the line on which the error begins, the column of its first character and
carets below the characters of its span on that line (`reports_point`).  Lines here are what the source falls into
when it is cut at its line ends, with no regard to how tokens or reports count them.

* `sourceLines_append`: the lines of a text whose beginning is known;
* `Spot.Marks`: what a spot and a number of carets have to show;
* `Spot.marks_find`: the spot of a stretch of a source shows it.
-/

namespace ThreeAddress

/-! ### Bytes and characters -/

private theorem byteLength_take_lt_iff {text : List Char} {i j : Nat} (hi : i < text.length) :
    byteLength (text.take i) < byteLength (text.take j) ↔ i < j := by
  rcases Nat.lt_or_ge i j with hij | hji
  · have hne : (text.take j).drop i ≠ [] := by
      rw [Ne, List.drop_eq_nil_iff, List.length_take]
      omega
    have hsplit := List.take_append_drop i (text.take j)
    rw [List.take_take, Nat.min_eq_left (Nat.le_of_lt hij)] at hsplit
    have hpos := byteLength_pos hne
    rw [← hsplit, byteLength_append]
    omega
  · have hsplit := List.take_append_drop j (text.take i)
    rw [List.take_take, Nat.min_eq_left hji] at hsplit
    rw [← hsplit, byteLength_append]
    omega

/-- The numbers below `n` that are among the `length` numbers from `first` on. -/
private theorem countP_range_between (first length n : Nat) :
    (List.range n).countP (fun i => first ≤ i ∧ i < first + length) = min length (n - first) := by
  induction n with
  | zero => simp
  | succ n ih =>
    rw [List.range_succ, List.countP_append, ih, List.countP_singleton]
    by_cases hn : first ≤ n ∧ n < first + length
    · rw [if_pos (by simpa using hn)]
      omega
    · rw [if_neg (by simpa using hn)]
      omega

theorem splitBefore_append (before after : List Char) :
    splitBefore (byteLength before) (before ++ after) = (before, after) := by
  induction before with
  | nil => cases after <;> rfl
  | cons c before ih =>
    have hpos := c.utf8Size_pos
    obtain ⟨n, hn⟩ : ∃ n, c.utf8Size + byteLength before = n + 1 := ⟨_, (Nat.succ_pred (by omega)).symm⟩
    have hrest : n + 1 - c.utf8Size = byteLength before := by omega
    rw [byteLength_cons, hn, List.cons_append, splitBefore, hrest, ih]

/-! ### Lines -/

/-- The lines of a source: each but the last stands before a line end. -/
def sourceLines (source : List Char) : List (List Char) := source.splitOn '\n'

/-- The byte position behind lines with their line ends. -/
def bytesThrough (lines : List (List Char)) : Nat := byteLength (lines.flatMap (· ++ ['\n']))

theorem lastLine_concat (text : List Char) (c : Char) :
    lastLine (text ++ [c]) = if c = '\n' then [] else lastLine text ++ [c] := by
  by_cases hc : c = '\n'
  · simp [lastLine, hc]
  · simp [lastLine, hc]

private theorem sourceLines_cons (c : Char) (text : List Char) : sourceLines (c :: text) =
    if c = '\n' then [] :: sourceLines text else (sourceLines text).modifyHead (c :: ·) := by
  rw [sourceLines, List.splitOn_cons_eq_if_modifyHead]
  simp [sourceLines]

theorem exists_sourceLines (text : List Char) :
    ∃ more, sourceLines text = text.takeWhile (· ≠ '\n') :: more := by
  induction text with
  | nil => exact ⟨[], rfl⟩
  | cons c text ih =>
    obtain ⟨more, hmore⟩ := ih
    rw [sourceLines_cons]
    by_cases hc : c = '\n'
    · exact ⟨sourceLines text, by simp [hc]⟩
    · exact ⟨more, by simp [hc, hmore]⟩

/-- The lines of a text: those that end in its beginning, and those of what is behind it, the first of which goes
with what the beginning has of it. -/
theorem sourceLines_append (before after : List Char) : ∃ lines,
    sourceLines (before ++ after) = lines ++ (sourceLines after).modifyHead (lastLine before ++ ·) ∧
      lines.length = newlines before ∧ bytesThrough lines + byteLength (lastLine before) = byteLength before := by
  -- by induction from the back, so that the last character of the beginning decides whether its last line goes on
  induction before using List.reverseRecOn generalizing after with
  | nil =>
    obtain ⟨more, hmore⟩ := exists_sourceLines after
    exact ⟨[], by simp [hmore, lastLine], rfl, rfl⟩
  | append_singleton before c ih =>
    obtain ⟨lines, hlines, hlength, hbytes⟩ := ih (c :: after)
    rw [sourceLines_cons] at hlines
    rw [List.append_assoc, List.singleton_append, hlines, lastLine_concat, newlines_append, byteLength_append]
    by_cases hc : c = '\n'
    · subst hc
      refine ⟨lines ++ [lastLine before], ?_, by simp [hlength, newlines], ?_⟩
      · cases sourceLines after <;> simp
      · rw [← hbytes]
        simp [bytesThrough, Nat.add_assoc]
    · refine ⟨lines, ?_, by simp [hlength, newlines, hc], ?_⟩
      · rw [if_neg hc, if_neg hc, List.modifyHead_modifyHead]
        congr 2
        funext line
        simp
      · simp [if_neg hc, ← hbytes]
        omega

/-! ### Spots -/

/-- The spot shows where a span of a source begins, and the carets below its line show what the line has of it. -/
structure Spot.Marks (spot : Spot) (source : List Char) (span : Span) (carets : Nat) (line : List Char) : Prop where
  /-- The line with the number of the spot. -/
  line_eq : 1 ≤ spot.line ∧ (sourceLines source)[spot.line - 1]? = some line
  /-- The column is that of a character of the line, or one behind the last. -/
  column_bounds : 1 ≤ spot.column ∧ spot.column ≤ line.length + 1
  /-- The span begins at the column. -/
  start_eq : bytesThrough ((sourceLines source).take (spot.line - 1)) + byteLength (line.take (spot.column - 1)) =
    span.start
  /-- The line is shown without the carriage returns at its end. -/
  content_eq : ∃ n, line = spot.content ++ List.replicate n '\r'
  content_trimmed : spot.content.getLast? ≠ some '\r'
  /-- There is a caret for each character shown that begins inside the span, and at least one. -/
  carets_eq : carets = max 1 ((List.range spot.content.length).countP fun i =>
    let position := bytesThrough ((sourceLines source).take (spot.line - 1)) + byteLength (spot.content.take i)
    span.start ≤ position ∧ position < span.stop)

theorem exists_eq_trimReturns_append (text : List Char) : ∃ n, text = trimReturns text ++ List.replicate n '\r' := by
  refine ⟨(text.reverse.takeWhile (· = '\r')).length, ?_⟩
  have hsplit := congrArg List.reverse (List.takeWhile_append_dropWhile (p := (· = '\r')) (l := text.reverse))
  have hreturns : (text.reverse.takeWhile (· = '\r')).reverse =
      List.replicate (text.reverse.takeWhile (· = '\r')).length '\r' := by
    rw [List.eq_replicate_iff]
    refine ⟨List.length_reverse, ?_⟩
    intro c hc
    simpa using List.mem_takeWhile_imp (List.mem_reverse.1 hc)
  rw [List.reverse_append, List.reverse_reverse, hreturns] at hsplit
  exact hsplit.symm

private theorem trimReturns_isPrefix (text : List Char) : trimReturns text <+: text := by
  obtain ⟨n, htext⟩ := exists_eq_trimReturns_append text
  exact ⟨_, htext.symm⟩

theorem getLast?_trimReturns (text : List Char) : (trimReturns text).getLast? ≠ some '\r' := by
  intro h
  have hlast := List.head?_dropWhile_not (fun c => decide (c = '\r')) text.reverse
  rw [trimReturns, List.getLast?_reverse] at h
  simp [h] at hlast

private theorem Spot.find_append (before after : List Char) : Spot.find (before ++ after) (byteLength before) =
    ⟨newlines before + 1, (lastLine before).length + 1,
      trimReturns (lastLine before ++ after.takeWhile (· ≠ '\n'))⟩ := by
  have hmin : byteLength before = min (byteLength before) (byteLength (before ++ after)) := by
    rw [byteLength_append]
    omega
  rw [Spot.find, splitBefore_append]
  simp only [if_pos hmin]

/-- The characters shown of a text that begin inside one of its stretches. -/
private theorem countP_inside (start : Nat) {front inside after content : List Char}
    (h : content <+: front ++ (inside ++ after)) :
    ((List.range content.length).countP fun i =>
      start + byteLength front ≤ start + byteLength (content.take i) ∧
        start + byteLength (content.take i) < start + byteLength (front ++ inside)) =
      min inside.length (content.length - front.length) := by
  rw [← countP_range_between]
  refine List.countP_congr ?_
  intro i hi
  have hi' : i < content.length := List.mem_range.1 hi
  have hshown : content.take i = (front ++ (inside ++ after)).take i := by
    obtain ⟨hidden, hhidden⟩ := h
    rw [← hhidden, List.take_append_of_le_length (Nat.le_of_lt hi')]
  -- both ends of the stretch are ends of beginnings of the whole text
  have hfirst := byteLength_take_lt_iff (j := front.length) (Nat.lt_of_lt_of_le hi' h.length_le)
  have hlast := byteLength_take_lt_iff (j := front.length + inside.length) (Nat.lt_of_lt_of_le hi' h.length_le)
  rw [List.take_left] at hfirst
  rw [← List.append_assoc, ← List.length_append, List.take_left, List.append_assoc, List.length_append] at hlast
  rw [hshown, decide_eq_true_eq, decide_eq_true_eq]
  omega

theorem Spot.marks_find {source before text after : List Char} {span : Span}
    (hsource : source = before ++ (text ++ after))
    (hspan : span = ⟨byteLength before, byteLength (before ++ text)⟩) :
    ∃ line, (Spot.find source span.start).Marks source span
      ((Spot.find source span.start).carets source span) line := by
  subst hsource hspan
  obtain ⟨lines, hlines, hlength, hbytes⟩ := sourceLines_append before (text ++ after)
  obtain ⟨more, hmore⟩ := exists_sourceLines (text ++ after)
  rw [hmore, List.modifyHead_cons] at hlines
  rw [Spot.find_append]
  have htake : (sourceLines (before ++ (text ++ after))).take (newlines before) = lines := by
    rw [hlines, ← hlength, List.take_left]
  refine ⟨lastLine before ++ (text ++ after).takeWhile (· ≠ '\n'), ⟨by simp, ?_⟩, by simp, ?_,
    exists_eq_trimReturns_append _, getLast?_trimReturns _, ?_⟩
  · simp [hlines, ← hlength]
  · simp [htake, hbytes]
  · have hshown : trimReturns (lastLine before ++ (text ++ after).takeWhile (· ≠ '\n')) <+:
        lastLine before ++ (text ++ after) := by
      refine (trimReturns_isPrefix _).trans ?_
      rw [List.prefix_append_right_inj]
      exact List.takeWhile_prefix _
    have hcount := countP_inside (bytesThrough lines) hshown
    rw [byteLength_append, ← Nat.add_assoc, hbytes, ← byteLength_append] at hcount
    rw [Spot.carets, slice?_append]
    simp only [Nat.add_sub_cancel, htake]
    rw [hcount]
    rfl

-- the characters of a string that goes on behind the line, on a line that ends in a carriage return
example :
    let source := "é\r\ns = \"a\r\n".toList
    Spot.find source 8 = ⟨2, 5, "s = \"a".toList⟩ ∧ (Spot.find source 8).carets source ⟨8, 12⟩ = 2 := by
  decide

/-! ### Reports -/

/-- The lines of a report that shows a spot with carets below it. -/
def Reporter.lines (r : Reporter) (type message : String) (spot : Spot) (carets : Nat) : List String :=
  let bar := paint r.color .blue "|"
  ["",
    paint r.color .red ("error[" ++ type ++ "]") ++ ": " ++ message,
    "  " ++ paint r.color .blue "-->" ++ " " ++ r.filename ++ ":" ++ spot.line.repr ++ ":" ++ spot.column.repr,
    "   " ++ bar,
    paint r.color .blue (padLeft 3 spot.line.repr ++ " |") ++ " " ++ String.ofList spot.content,
    "   " ++ bar ++ " " ++ String.ofList (List.replicate (spot.column - 1) ' ') ++
      paint r.color .red (String.ofList (List.replicate carets '^'))]

/-- The report on an error of a line shows that line and marks the span of the error. -/
def Reporter.PointsAt (r : Reporter) (type message : String) (line : Nat) (span : Span) (report : String) : Prop :=
  ∃ spot carets text, report = String.join ((r.lines type message spot carets).map (· ++ "\n")) ∧
    spot.line = line ∧ spot.Marks r.source.toList span carets text

theorem Reporter.show_eq (r : Reporter) (type message : String) (span : Span) : r.show type message span =
    String.join ((r.lines type message (Spot.find r.source.toList span.start)
      ((Spot.find r.source.toList span.start).carets r.source.toList span)).map (· ++ "\n")) := by
  dsimp only [Reporter.show, Reporter.lines]
  -- the texts of the spot are the same on both sides, and nothing may look into them
  generalize (Spot.find r.source.toList span.start).carets r.source.toList span = carets
  generalize Spot.find r.source.toList span.start = spot
  simp only [List.map_cons, List.map_nil, String.join_cons, String.join_nil, String.append_assoc,
    String.empty_append, String.append_empty]

private theorem Reporter.pointsAt_token {r : Reporter} {t : Token} (ht : t ∈ tokenize r.source)
    (type message : String) : r.PointsAt type message t.line t.span (r.show type message t.span) := by
  obtain ⟨before, text, after, hsource, hspan, hline⟩ := (laid_tokenize r.source).place (List.nil_append _) ht
  obtain ⟨content, hmarks⟩ := Spot.marks_find hsource hspan
  refine ⟨_, _, content, r.show_eq type message t.span, ?_, hmarks⟩
  rw [hspan, hsource, Spot.find_append, hline]
  exact Nat.add_comm _ _

end ThreeAddress
