import Mathlib.Algebra.GroupWithZero.Nat
import Mathlib.Data.List.DropRight
import ThreeAddress.Proofs.Text
import ThreeAddress.Table

/-!
# Tables are aligned

The lines of a table have the lengths that its columns and cells call for, and where all cells of a line fit into
their columns, the bars of the line stand below the plus signs of the border.  So the cells can be read from the text
of the table by the place of their columns (`render_aligned`).

* `Table.splitOn_render`: the text of a table determines its lines;
* `Ruled`: a border and a line below it that are divided at the same places, with a bar for each plus sign;
* `Table.Fits.ruled`: the line of cells that fit is divided like the border;
* `Ruled.fieldsBelow_eq`: the plus signs of a border find what is between the bars of such a line.
-/

namespace ThreeAddress

/-! ### Borders and lines of cells -/

/-- What stands between the bars of a column: a blank, the cell and blanks. -/
def Column.field (column : Column) (cell : String) : List Char :=
  ' ' :: (cell.toList ++ List.replicate (column.width - 1 - cell.length) ' ')

private theorem Column.length_field (column : Column) (cell : String) :
    (column.field cell).length = 1 + max cell.length (column.width - 1) := by
  simp only [Column.field, List.length_cons, List.length_append, String.length_toList, List.length_replicate]
  omega

private theorem Table.toList_border_nil : (Table.border []).toList = ['+'] := rfl

private theorem Table.toList_border_cons (column : Column) (columns : List Column) :
    (Table.border (column :: columns)).toList =
      '+' :: (List.replicate column.width '-' ++ (Table.border columns).toList) := by
  simp [Table.border]

private theorem Table.toList_line_nil_left (columns : List Column) : (Table.line columns []).toList = ['|'] := by
  simp [Table.line]

private theorem Table.toList_line_nil_right (cells : List String) : (Table.line [] cells).toList = ['|'] := by
  simp [Table.line]

private theorem Table.toList_line_cons (column : Column) (columns : List Column) (cell : String) (cells : List String) :
    (Table.line (column :: columns) (cell :: cells)).toList =
      '|' :: (column.field cell ++ (Table.line columns cells).toList) := by
  simp [Table.line, Column.field, padRight]

private theorem Table.length_border (columns : List Column) :
    (Table.border columns).length = 1 + (columns.map (·.width + 1)).sum := by
  rw [← String.length_toList]
  induction columns with
  | nil => rfl
  | cons column columns ih =>
    rw [Table.toList_border_cons, List.length_cons, List.length_append, ih, List.length_replicate, List.map_cons,
      List.sum_cons]
    omega

private theorem Table.length_line (columns : List Column) (cells : List String) :
    (Table.line columns cells).length =
      1 + (List.zipWith (fun cell column => 2 + max cell.length (column.width - 1)) cells columns).sum := by
  rw [← String.length_toList]
  induction cells generalizing columns with
  | nil => simp [Table.toList_line_nil_left]
  | cons cell cells ih =>
    cases columns with
    | nil => simp [Table.toList_line_nil_right]
    | cons column columns =>
      rw [Table.toList_line_cons, List.length_cons, List.length_append, ih, column.length_field,
        List.zipWith_cons_cons, List.sum_cons]
      omega

/-- Cells beyond the columns are left out. -/
private theorem Table.line_take (columns : List Column) (cells : List String) :
    Table.line columns (cells.take columns.length) = Table.line columns cells := by
  rw [Table.line, Table.line]
  congr 2
  induction cells generalizing columns with
  | nil => rw [List.take_nil]
  | cons cell cells ih =>
    cases columns with
    | nil => rfl
    | cons column columns =>
      rw [List.length_cons, List.take_succ_cons, List.zipWith_cons_cons, List.zipWith_cons_cons, ih]

/-! ### The lines of the text -/

private theorem Table.newline_notMem_border (columns : List Column) : '\n' ∉ (Table.border columns).toList := by
  induction columns with
  | nil => decide
  | cons column columns ih => simp [Table.toList_border_cons, ih]

private theorem Table.newline_notMem_line (columns : List Column) {cells : List String}
    (h : ∀ cell ∈ cells, '\n' ∉ cell.toList) : '\n' ∉ (Table.line columns cells).toList := by
  induction cells generalizing columns with
  | nil => simp [Table.toList_line_nil_left]
  | cons cell cells ih =>
    cases columns with
    | nil => simp [Table.toList_line_nil_right]
    | cons column columns =>
      rw [List.forall_mem_cons] at h
      simp [Table.toList_line_cons, Column.field, h.1, ih columns h.2]

/-- The cells that stand in a line of a table, which is the header or a row. -/
def Table.cellsAt? (table : Table) : Nat → Option (List String)
  | 1 => some (table.columns.map Column.header)
  | k + 3 => table.rows[k]?
  | _ => none

private theorem Table.lines_of_cellsAt? {table : Table} {k : Nat} {cells : List String}
    (h : table.cellsAt? k = some cells) : table.lines[k]? = some (Table.line table.columns cells) := by
  match k with
  | 0 | 2 => cases h
  | 1 =>
    cases h
    rfl
  | k + 3 =>
    rw [Table.cellsAt?] at h
    have hrow : (table.rows.map (Table.line table.columns))[k]? = some (Table.line table.columns cells) := by
      rw [List.getElem?_map, h, Option.map_some]
    have hlt := (List.getElem?_eq_some_iff.1 hrow).1
    rw [Table.lines, List.append_assoc, List.getElem?_append_right (by simp), List.length_cons, List.length_cons,
      List.length_singleton, Nat.add_sub_cancel, List.getElem?_append_left hlt, hrow]

/-- The places of the borders: above the header, below it, and below the rows. -/
private theorem Table.lines_border (table : Table) :
    ∀ k ∈ [0, 2, table.rows.length + 3], table.lines[k]? = some (Table.border table.columns) := by
  intro k hk
  simp only [List.mem_cons, List.not_mem_nil, or_false] at hk
  rcases hk with rfl | rfl | rfl
  · rfl
  · rfl
  · rw [Table.lines, List.getElem?_append_right (by simp)]
    simp

private theorem Table.length_lines (table : Table) : table.lines.length = table.rows.length + 4 := by
  simp [Table.lines]

theorem Table.splitOn_render {table : Table} (hheaders : ∀ column ∈ table.columns, '\n' ∉ column.header.toList)
    (hcells : ∀ cells ∈ table.rows, ∀ cell ∈ cells, '\n' ∉ cell.toList) :
    table.render.toList.splitOn '\n' = table.lines.map String.toList ++ [[]] := by
  apply splitOn_linesText
  have hborder := Table.newline_notMem_border table.columns
  have hheader : ∀ cell ∈ table.columns.map Column.header, '\n' ∉ cell.toList := by
    intro cell hcell
    obtain ⟨column, hcolumn, rfl⟩ := List.mem_map.1 hcell
    exact hheaders column hcolumn
  intro line hline
  simp only [Table.lines, List.cons_append, List.nil_append, List.mem_cons, List.mem_append, List.mem_map,
    List.not_mem_nil, or_false] at hline
  rcases hline with rfl | rfl | rfl | ⟨cells, hrow, rfl⟩ | rfl
  · exact hborder
  · exact Table.newline_notMem_line table.columns hheader
  · exact hborder
  · exact Table.newline_notMem_line table.columns (hcells cells hrow)
  · exact hborder

/-- A line of a table is a line of its text. -/
private theorem Table.shown_of_lines {table : Table}
    (hlines : table.render.toList.splitOn '\n' = table.lines.map String.toList ++ [[]]) {k : Nat} {shown : String}
    (h : table.lines[k]? = some shown) : (table.render.toList.splitOn '\n')[k]? = some shown.toList := by
  have hmap : (table.lines.map String.toList)[k]? = some shown.toList := by
    rw [List.getElem?_map, h, Option.map_some]
  rw [hlines, List.getElem?_append_left (List.getElem?_eq_some_iff.1 hmap).1, hmap]

/-! ### Bars below plus signs -/

/-- A border and a line below it that are divided at the same places, with the given texts between the bars. -/
inductive Ruled : List Char → List Char → List (List Char) → Prop
  | last : Ruled ['+'] ['|'] []
  | field {dashes text border row : List Char} {texts : List (List Char)} (hdashes : '+' ∉ dashes)
      (hlength : dashes.length = text.length) (hrest : Ruled border row texts) :
      Ruled ('+' :: (dashes ++ border)) ('|' :: (text ++ row)) (text :: texts)

/-- The texts of a line between the plus signs of a border above it. -/
def fieldsBelow (border row : List Char) : List (List Char) :=
  ((border.zip row).splitOnP (·.1 = '+')).tail.dropLast.map (List.map Prod.snd)

section Ruled

variable {border row : List Char} {texts : List (List Char)} (h : Ruled border row texts)
include h

private theorem Ruled.length_eq : row.length = border.length := by
  induction h with
  | last => rfl
  | field hdashes hlength hrest ih => simp [ih, hlength]

/-- At each place are a plus sign and a bar, or no plus sign and a character of a text. -/
theorem Ruled.place (i : Nat) : border[i]? = some '+' ∧ row[i]? = some '|' ∨
    border[i]? ≠ some '+' ∧ ∀ c, row[i]? = some c → ∃ text ∈ texts, c ∈ text := by
  induction h generalizing i with
  | last =>
    cases i with
    | zero => exact Or.inl ⟨rfl, rfl⟩
    | succ i => simp
  | @field dashes text border row texts hdashes hlength hrest ih =>
    cases i with
    | zero => exact Or.inl ⟨rfl, rfl⟩
    | succ i =>
      rw [List.getElem?_cons_succ, List.getElem?_cons_succ]
      rcases Nat.lt_or_ge i dashes.length with hinside | hbehind
      · right
        rw [List.getElem?_append_left hinside, List.getElem?_append_left (by omega)]
        constructor
        · intro hplus
          exact hdashes (List.mem_of_getElem? hplus)
        · intro c hc
          exact ⟨text, List.mem_cons_self, List.mem_of_getElem? hc⟩
      · rw [List.getElem?_append_right hbehind, List.getElem?_append_right (by omega), ← hlength]
        rcases ih (i - dashes.length) with hbar | ⟨hplus, hother⟩
        · exact Or.inl hbar
        · refine Or.inr ⟨hplus, ?_⟩
          intro c hc
          obtain ⟨other, hmem, hin⟩ := hother c hc
          exact ⟨other, List.mem_cons_of_mem text hmem, hin⟩

private theorem Ruled.exists_cons : ∃ border' row', border = '+' :: border' ∧ row = '|' :: row' := by
  cases h with
  | last => exact ⟨[], [], rfl, rfl⟩
  | field hdashes hlength hrest => exact ⟨_, _, rfl, rfl⟩

theorem Ruled.fieldsBelow_eq : fieldsBelow border row = texts := by
  induction h with
  | last => rfl
  | @field dashes text border row texts hdashes hlength hrest ih =>
    obtain ⟨border', row', rfl, rfl⟩ := hrest.exists_cons
    have hnone : ∀ pair ∈ dashes.zip text, decide (pair.1 = '+') = false := by
      intro pair hpair
      exact decide_eq_false (ne_of_mem_of_not_mem (List.of_mem_zip hpair).1 hdashes)
    have hsplit : (('+' :: (dashes ++ '+' :: border')).zip ('|' :: (text ++ '|' :: row'))).splitOnP
        (fun pair => decide (pair.1 = '+')) =
        [] :: dashes.zip text :: (border'.zip row').splitOnP (fun pair => decide (pair.1 = '+')) := by
      rw [List.zip_cons_cons, List.zip_append hlength, List.zip_cons_cons, List.splitOnP_cons_eq_if_modifyHead,
        if_pos (by decide), List.splitOnP_append_cons_of_forall_mem hnone _ (by decide)]
    have hrest' : (('+' :: border').zip ('|' :: row')).splitOnP (fun pair => decide (pair.1 = '+')) =
        [] :: (border'.zip row').splitOnP (fun pair => decide (pair.1 = '+')) := by
      rw [List.zip_cons_cons, List.splitOnP_cons_eq_if_modifyHead, if_pos (by decide)]
    rw [fieldsBelow, hrest', List.tail_cons] at ih
    rw [fieldsBelow, hsplit, List.tail_cons, List.dropLast_cons_of_ne_nil (List.splitOnP_ne_nil _ _), List.map_cons,
      ih, List.map_snd_zip (by omega)]

end Ruled

/-- Each column has a cell, at least one character shorter than the column is wide. -/
def Table.Fits (columns : List Column) (cells : List String) : Prop :=
  columns.length ≤ cells.length ∧ ∀ pair ∈ cells.zip columns, pair.1.length ≤ pair.2.width - 1

instance (columns : List Column) (cells : List String) : Decidable (Table.Fits columns cells) :=
  inferInstanceAs (Decidable (_ ∧ _))

/-- The line of cells that fit into their columns is divided like the border. -/
theorem Table.Fits.ruled {columns : List Column} {cells : List String} (hfits : Table.Fits columns cells)
    (hwidths : ∀ column ∈ columns, 1 ≤ column.width) :
    Ruled (Table.border columns).toList (Table.line columns cells).toList
      (List.zipWith (fun cell column => column.field cell) cells columns) := by
  obtain ⟨hlength, hcells⟩ := hfits
  induction columns generalizing cells with
  | nil =>
    rw [Table.toList_border_nil, Table.toList_line_nil_right, List.zipWith_nil_right]
    exact Ruled.last
  | cons column columns ih =>
    cases cells with
    | nil => simp at hlength
    | cons cell cells =>
      rw [List.forall_mem_cons] at hwidths
      rw [List.zip_cons_cons, List.forall_mem_cons] at hcells
      have hcell : cell.length ≤ column.width - 1 := hcells.1
      rw [Table.toList_border_cons, Table.toList_line_cons, List.zipWith_cons_cons]
      refine Ruled.field (by simp) ?_ (ih hwidths.2 (Nat.le_of_succ_le_succ hlength) hcells.2)
      -- the blank before the cell makes up for the character that the cell is shorter
      rw [List.length_replicate, column.length_field]
      omega

/-- A border and a line with the given cells below it that are aligned. -/
structure Table.Aligned (border row : List Char) (cells : List String) : Prop where
  length_eq : row.length = border.length
  /-- There is a bar below each plus sign, and any other bar is in a cell. -/
  bar : ∀ i : Nat, border[i]? = some '+' → row[i]? = some '|'
  plus_or_mem : ∀ i : Nat, row[i]? = some '|' → border[i]? = some '+' ∨ ∃ cell ∈ cells, '|' ∈ cell.toList
  /-- Between the places of the plus signs are one blank, the cell and blanks. -/
  length_fields : (fieldsBelow border row).length = cells.length
  field : ∀ (i : Nat) (cell : String), cells[i]? = some cell →
    ∃ n, (fieldsBelow border row)[i]? = some (' ' :: (cell.toList ++ List.replicate n ' '))

private theorem Table.Fits.aligned {columns : List Column} {cells : List String} (hfits : Table.Fits columns cells)
    (hwidths : ∀ column ∈ columns, 1 ≤ column.width) :
    Table.Aligned (Table.border columns).toList (Table.line columns cells).toList (cells.take columns.length) := by
  have hruled := hfits.ruled hwidths
  refine ⟨hruled.length_eq, ?_, ?_, ?_, ?_⟩
  · intro i hplus
    rcases hruled.place i with ⟨-, hbar⟩ | ⟨hnone, -⟩
    · exact hbar
    · exact absurd hplus hnone
  · intro i hi
    rcases hruled.place i with ⟨hplus, -⟩ | ⟨-, hother⟩
    · exact Or.inl hplus
    · right
      obtain ⟨field, hfield, hbar⟩ := hother '|' hi
      obtain ⟨j, hj⟩ := List.mem_iff_getElem?.1 hfield
      obtain ⟨cell, column, hcell, hcolumn, rfl⟩ := List.getElem?_zipWith_eq_some.1 hj
      have hlt : j < columns.length := (List.getElem?_eq_some_iff.1 hcolumn).1
      refine ⟨cell, List.mem_of_getElem? (i := j) ?_, by simpa [Column.field] using hbar⟩
      rw [List.getElem?_take_of_lt hlt, hcell]
  · rw [hruled.fieldsBelow_eq, List.length_zipWith, List.length_take, Nat.min_comm]
  · intro i cell hcell
    rw [List.getElem?_take] at hcell
    split at hcell
    case isFalse => cases hcell
    case isTrue hlt =>
      refine ⟨columns[i].width - 1 - cell.length, ?_⟩
      rw [hruled.fieldsBelow_eq]
      exact List.getElem?_zipWith_eq_some.2 ⟨cell, columns[i], hcell, List.getElem?_eq_getElem hlt, rfl⟩

/-! ### Cells by the place of their column -/

/-- The cell in a line and a column of the text of a table, between two plus signs of the border at the top. -/
def readCell? (text : List Char) (line column : Nat) : Option (List Char) := do
  let top ← (text.splitOn '\n')[0]?
  let shown ← (text.splitOn '\n')[line]?
  let field ← (fieldsBelow top shown)[column]?
  return (field.drop 1).rdropWhile (· = ' ')

private theorem rdropWhile_append_blanks {text : List Char} (h : text.getLast? ≠ some ' ') (n : Nat) :
    (text ++ List.replicate n ' ').rdropWhile (· = ' ') = text := by
  induction n with
  | zero =>
    rw [List.replicate_zero, List.append_nil, List.rdropWhile_eq_self_iff]
    intro hne hlast
    apply h
    rw [List.getLast?_eq_some_getLast hne, of_decide_eq_true hlast]
  | succ n ih =>
    rw [List.replicate_succ', ← List.append_assoc, List.rdropWhile_concat_pos _ _ _ (by decide), ih]

/-- Cells of an aligned line of a text are read back. -/
private theorem Table.Aligned.readCell?_eq {text border line : List Char} {cells : List String} {k i : Nat}
    {cell : String} (h : Table.Aligned border line cells) (hborder : (text.splitOn '\n')[0]? = some border)
    (hline : (text.splitOn '\n')[k]? = some line) (hcell : cells[i]? = some cell)
    (hblank : cell.toList.getLast? ≠ some ' ') : readCell? text k i = some cell.toList := by
  obtain ⟨n, hfield⟩ := h.field i cell hcell
  rw [readCell?, hborder, hline]
  simp only [Option.bind_eq_bind, Option.bind_some, hfield, List.drop_succ_cons, List.drop_zero,
    rdropWhile_append_blanks hblank]
  rfl

/-- The text of a table has its borders, its header and its rows for lines: the first, the third and the last are
borders.  All lines have the lengths that the columns and cells give them.  If each column of a line has a cell that
fits into it, then the line is aligned with the borders, and the cells without blanks at the end can be read from the
text by the place of their column. -/
theorem render_aligned (table : Table) (hwidths : ∀ column ∈ table.columns, 1 ≤ column.width)
    (hheaders : ∀ column ∈ table.columns, '\n' ∉ column.header.toList)
    (hcells : ∀ cells ∈ table.rows, ∀ cell ∈ cells, '\n' ∉ cell.toList) :
    table.render.toList.splitOn '\n' = table.lines.map String.toList ++ [[]] ∧
    (Table.border table.columns).length = 1 + (table.columns.map (·.width + 1)).sum ∧
    table.lines.length = table.rows.length + 4 ∧
    (∀ k ∈ [0, 2, table.rows.length + 3],
      (table.render.toList.splitOn '\n')[k]? = some (Table.border table.columns).toList) ∧
    ∀ k cells, table.cellsAt? k = some cells →
      table.lines[k]? = some (Table.line table.columns cells) ∧
      (Table.line table.columns cells).length =
        1 + (List.zipWith (fun cell column => 2 + max cell.length (column.width - 1)) cells table.columns).sum ∧
      Table.line table.columns (cells.take table.columns.length) = Table.line table.columns cells ∧
      (Table.Fits table.columns cells →
        Table.Aligned (Table.border table.columns).toList (Table.line table.columns cells).toList
          (cells.take table.columns.length) ∧
        ∀ (i : Nat) (cell : String), (cells.take table.columns.length)[i]? = some cell →
          cell.toList.getLast? ≠ some ' ' → readCell? table.render.toList k i = some cell.toList) := by
  have hlines := Table.splitOn_render hheaders hcells
  have hborder : ∀ k ∈ [0, 2, table.rows.length + 3],
      (table.render.toList.splitOn '\n')[k]? = some (Table.border table.columns).toList := by
    intro k hk
    exact Table.shown_of_lines hlines (table.lines_border k hk)
  refine ⟨hlines, Table.length_border table.columns, table.length_lines, hborder, ?_⟩
  intro k cells hk
  have hline := Table.lines_of_cellsAt? hk
  refine ⟨hline, Table.length_line table.columns cells, Table.line_take table.columns cells, ?_⟩
  intro hfits
  have haligned := hfits.aligned hwidths
  refine ⟨haligned, ?_⟩
  intro i cell hcell hblank
  exact haligned.readCell?_eq (hborder 0 List.mem_cons_self) (Table.shown_of_lines hlines hline) hcell hblank

/-- A cell with a bar in it, in a row with a cell too many and above a row with a cell too long. -/
theorem render_aligned_bar :
    let table : Table := ⟨[⟨"No.", 5⟩, ⟨"Op", 4⟩], [["0", "a|é", "x"], ["1", "GOTO"]]⟩
    (∀ column ∈ table.columns, 1 ≤ column.width) ∧ (∀ column ∈ table.columns, '\n' ∉ column.header.toList) ∧
    (∀ cells ∈ table.rows, ∀ cell ∈ cells, '\n' ∉ cell.toList) ∧
    table.cellsAt? 3 = some ["0", "a|é", "x"] ∧ Table.Fits table.columns ["0", "a|é", "x"] ∧
    Table.Aligned (Table.border table.columns).toList (Table.line table.columns ["0", "a|é", "x"]).toList
      ["0", "a|é"] ∧
    readCell? table.render.toList 3 1 = some "a|é".toList := by
  refine ⟨by decide, by decide, by decide, rfl, by decide, ?_⟩
  have hall := render_aligned ⟨[⟨"No.", 5⟩, ⟨"Op", 4⟩], [["0", "a|é", "x"], ["1", "GOTO"]]⟩ (by decide) (by decide)
    (by decide)
  obtain ⟨-, -, -, hfits⟩ := hall.2.2.2.2 3 ["0", "a|é", "x"] rfl
  obtain ⟨haligned, hread⟩ := hfits (by decide)
  exact ⟨haligned, hread 1 "a|é" rfl (by decide)⟩

end ThreeAddress
