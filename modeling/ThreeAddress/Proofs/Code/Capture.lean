import ThreeAddress.Proofs.Code.Listing
import ThreeAddress.Proofs.Code.Reader

/-!
# Names and temporaries

Temporaries are printed as `t` with a number, and nothing keeps an identifier from being spelled in the same way
(`captured_variable`).  No other word of a source can be spelled so: without such an identifier the quadruples can be
read by names (`quadruples_read_by_names`).

* `kind_eq_identifier_of_written`: a token that begins like a temporary is an identifier;
* `exists_identifier`: so a name with the text of a temporary is one;
* `Sketch.legible_spell`: the rows of the table tell what to do.
-/

namespace ThreeAddress

universe u

/-! ### Names of a source -/

private theorem Leaf.text_ofToken_identifier {t : Token} (h : t.kind = .identifier) :
    (Leaf.ofToken t).text = t.lexeme := by
  simp [Leaf.ofToken, h, Leaf.text]

/-- The names in an instruction are those of tokens. -/
private theorem Sketch.MadeOf.exists_token {tokens : List Token} {d : Sketch} (hd : d.MadeOf tokens) {text : String}
    (h : .name text ∈ (d.spell Quadruple).operands) : ∃ t ∈ tokens, (Leaf.ofToken t).text = text := by
  have hargument : ∀ {a : Argument}, a.MadeOf tokens → .name text = a.operand Quadruple →
      ∃ t ∈ tokens, (Leaf.ofToken t).text = text := by
    intro a ha hname
    cases a with
    | text word =>
      cases hname
      exact ha
    | computed index temp => cases hname
  cases d with
  | compute op lhs rhs temp =>
    have hname : .name text = lhs.operand Quadruple ∨ .name text = rhs.operand Quadruple := by
      simpa [Quadruple.operands, Sketch.spell, Spelling.computation] using h
    rcases hname with hlhs | hrhs
    · exact hargument hd.2.1 hlhs
    · exact hargument hd.2.2 hrhs
  | assign target value =>
    have hname : .name text = value.operand Quadruple ∨ text = target := by
      simpa [Quadruple.operands, Sketch.spell, Shape.assign] using h
    rcases hname with hvalue | rfl
    · exact hargument hd.2 hvalue
    · obtain ⟨t, ht, hkind, rfl⟩ := hd.1
      exact ⟨t, ht, Leaf.text_ofToken_identifier hkind⟩
  | jumpIfFalse cond label =>
    exact hargument hd (by simpa [Quadruple.operands, Sketch.spell, Shape.jumpIfFalse] using h)
  | jump label => simp [Quadruple.operands, Sketch.spell, Shape.jump] at h
  | mark label => simp [Quadruple.operands, Sketch.spell, Shape.mark] at h
  | ret value =>
    cases value with
    | none => simp [Quadruple.operands, Sketch.spell, Shape.ret] at h
    | some value =>
      exact hargument (hd value rfl) (by simpa [Quadruple.operands, Sketch.spell, Shape.ret] using h)

private theorem Piece.kind_front_t (rest : List Char) : (Piece.front 't' rest).kind? = some .identifier := by
  have hfirst : ∀ word ∈ keywords, word.toList.head? ≠ some 't' := by decide
  have hword : ∀ more, keywords.contains (String.ofList ('t' :: more)) = false := by
    intro more
    rw [List.contains_eq_mem, decide_eq_false_iff_not]
    intro hmem
    exact hfirst _ hmem (by rw [String.toList_ofList, List.head?_cons])
  rw [Piece.front, if_neg (by decide), if_neg (by simp), if_neg (by simp), if_pos (by decide)]
  simp only [wordKind, hword, Bool.false_and, Bool.false_eq_true, if_false]

/-- A token that begins like a temporary is an identifier. -/
theorem kind_eq_identifier_of_written {source : String} {token : Token} (ht : token ∈ tokenize source)
    (hend : token.kind ≠ .endOfInput) {more : List Char} (hwritten : token.written = 't' :: more) :
    token.kind = .identifier := by
  obtain ⟨before, p, after, hpieces, hp, htoken⟩ := exists_piece_of_mem_locate ht hend
  obtain ⟨c, rest, rfl, -⟩ := exists_front before hpieces
  rw [htoken, Piece.written_tokenAt _ hp, Piece.text, Piece.front_first, List.cons.injEq] at hwritten
  obtain ⟨rfl, -⟩ := hwritten
  rw [Piece.kind_front_t, Option.some.injEq] at hp
  exact hp.symm

/-- A name with the text of a temporary is an identifier of the source. -/
theorem exists_identifier {source : String} {t : Temp}
    (h : .name t.display ∈ operands (quadruples (parse (tokenize source)).program)) :
    ∃ token ∈ tokenize source, token.kind = .identifier ∧ token.lexeme = t.display := by
  rw [operands, quadruples_eq, List.flatMap_map, List.mem_flatMap] at h
  obtain ⟨d, hd, hname⟩ := h
  obtain ⟨token, htoken, htext⟩ := (sketch_madeOf hd).exists_token hname
  obtain ⟨hmem, hend⟩ := mem_ofTokens htoken
  have hwritten : token.written = 't' :: t.number.toNat.repr.toList := by
    rw [← Leaf.toList_text_ofToken, htext, Temp.display, String.toList_append]
    rfl
  have hkind := kind_eq_identifier_of_written hmem (by simpa [Token.isEnd] using hend) hwritten
  rw [Leaf.text_ofToken_identifier hkind] at htext
  exact ⟨token, hmem, hkind, htext⟩

/-! ### Rows of a source -/

private theorem Row.opcode_binary {op : String} (hop : ∀ c ∈ op.toList, isOperatorChar c) {arg1 arg2 result : String}
    (harg2 : arg2 ≠ "_") : Row.opcode ⟨op, arg1, arg2, result⟩ = .binary op := by
  have hne : ∀ {word : String} {c : Char}, c ∈ word.toList → isOperatorChar c = false → op ≠ word := by
    rintro word c hc hchar rfl
    rw [hop c hc] at hchar
    cases hchar
  have hwords : op ≠ "IF_FALSE" ∧ op ≠ "GOTO" ∧ op ≠ "LABEL" ∧ op ≠ "RETURN" :=
    ⟨hne (c := 'I') (by decide) (by decide), hne (c := 'G') (by decide) (by decide),
      hne (c := 'L') (by decide) (by decide), hne (c := 'R') (by decide) (by decide)⟩
  simp [Row.opcode, hwords, harg2]

section Source

variable {source : String} (herrors : ∀ t ∈ tokenize source, t.isError = false)
include herrors

private theorem Argument.display_ne_empty {a : Argument} (ha : a.MadeOf (Input.ofTokens (tokenize source)).tokens) :
    (a.operand Quadruple).display ≠ "_" := by
  cases a with
  | text word =>
    obtain ⟨t, ht, rfl⟩ := ha
    have htoken := oneToken_ofToken herrors ht
    rintro hempty
    rw [Argument.operand, Operand.display] at hempty
    rw [hempty] at htoken
    exact htoken.of_first.2 rfl
  | computed index temp =>
    intro hempty
    have hchars := congrArg String.toList hempty
    simp [Argument.operand, Spelling.value, Operand.display, Temp.display] at hchars

theorem Sketch.legible_spell {d : Sketch} (hd : d.MadeOf (Input.ofTokens (tokenize source)).tokens) :
    (d.spell Quadruple).Legible := by
  have hargument : ∀ {a : Argument}, a.MadeOf (Input.ofTokens (tokenize source)).tokens →
      (a.operand Quadruple).display = "_" → a.operand Quadruple = .empty :=
    fun ha hempty => absurd hempty (Argument.display_ne_empty herrors ha)
  cases d with
  | compute op lhs rhs temp =>
    obtain ⟨⟨t, ht, hkind, rfl⟩, hlhs, hrhs⟩ := hd
    refine ⟨?_, hargument hlhs, nofun⟩
    exact Row.opcode_binary (isOperatorChar_of_mem_lexeme (mem_ofTokens ht).1 hkind)
      (rhs.display_ne_empty herrors hrhs)
  | assign target value => exact ⟨rfl, hargument hd.2, nofun⟩
  | jumpIfFalse cond label => exact ⟨rfl, hargument hd, nofun⟩
  | jump label => exact ⟨rfl, fun _ => rfl, nofun⟩
  | mark label => exact ⟨rfl, fun _ => rfl, fun _ => ⟨_, rfl⟩⟩
  | ret value =>
    cases value with
    | none => exact ⟨rfl, fun _ => rfl, nofun⟩
    | some value => exact ⟨rfl, hargument (hd value rfl), nofun⟩

private theorem legible_of_mem_quadruples : ∀ q ∈ quadruples (parse (tokenize source)).program, q.Legible := by
  intro q hq
  rw [quadruples_eq] at hq
  obtain ⟨d, hd, rfl⟩ := List.mem_map.1 hq
  exact Sketch.legible_spell herrors (sketch_madeOf hd)

end Source

/-! ### Sources -/

/-- In the quadruples of a source without lexical errors, a temporary has the text of a name only if the name is an
identifier of the source.  If no identifier has the text of a temporary, then no name has it, and reading the table of
quadruples by names does what the machine does that keeps the temporaries apart. -/
theorem quadruples_read_by_names {source : String} (herrors : ∀ t ∈ tokenize source, t.isError = false) :
    let code := quadruples (parse (tokenize source)).program
    (∀ t text, .temp t ∈ operands code → .name text ∈ operands code → t.display = text →
      ∃ token ∈ tokenize source, token.kind = .identifier ∧ token.lexeme = text) ∧
    ((∀ token ∈ tokenize source, token.kind = .identifier → ∀ t, .temp t ∈ operands code → token.lexeme ≠ t.display) →
      CaptureFree code ∧ ∀ (V : Type u) (I : Interpretation V), I.ByName → ∀ (store : Store V) (n : Nat),
        Follows code (Machine.after I code n (.start store))
          (Reader.after I ((quadrupleTable code).rows.filterMap Row.ofCells) n ⟨0, store⟩)) := by
  intro code
  have hidentifier : ∀ t text, .temp t ∈ operands code → .name text ∈ operands code → t.display = text →
      ∃ token ∈ tokenize source, token.kind = .identifier ∧ token.lexeme = text := by
    rintro t text - hname rfl
    exact exists_identifier hname
  refine ⟨hidentifier, fun hspelled => ?_⟩
  have hfree : CaptureFree code := by
    intro t text ht hname heq
    obtain ⟨token, htoken, hkind, hlexeme⟩ := hidentifier t text ht hname heq
    exact hspelled token htoken hkind t ht (hlexeme.trans heq.symm)
  refine ⟨hfree, ?_⟩
  intro V I hI store n
  rw [rows_quadrupleTable]
  exact follows_after hI hfree (legible_of_mem_quadruples herrors) (Machine.ready_start _ store)
    ⟨rfl, fun _ _ => rfl, nofun⟩ n

/-- Two identifiers, one of them with the text of a temporary that the code does not have. -/
theorem quadruples_read_by_names_spared :
    let source := "t2 = a + 1; return t2;"
    let code := quadruples (parse (tokenize source)).program
    (∀ t ∈ tokenize source, t.isError = false) ∧
      (∀ token ∈ tokenize source, token.kind = .identifier → ∀ t, .temp t ∈ operands code →
        token.lexeme ≠ t.display) ∧ CaptureFree code ∧
      ∃ store, store "t2" = some 2 ∧ Reader.after counting ((quadrupleTable code).rows.filterMap Row.ofCells) 3
        ⟨0, fun _ => none⟩ = .halt (.normal (.returned (some 2)) store) := by
  intro source code
  have herrors : ∀ t ∈ tokenize source, t.isError = false := by decide +kernel
  have hcode : code = [⟨.binary "+", .name "a", .name "1", .temp ⟨1⟩⟩, ⟨.assign, .temp ⟨1⟩, .empty, .name "t2"⟩,
      ⟨.ret, .name "t2", .empty, .empty⟩] := by decide +kernel
  have htemps : ∀ t, .temp t ∈ operands code → t = ⟨1⟩ := by
    intro t ht
    simpa [hcode, operands, Quadruple.operands] using ht
  have hnames : ∀ token ∈ tokenize source, token.kind = .identifier → token.lexeme ≠ "t1" := by decide +kernel
  have hspelled : ∀ token ∈ tokenize source, token.kind = .identifier → ∀ t, .temp t ∈ operands code →
      token.lexeme ≠ t.display := by
    intro token htoken hkind t ht
    rw [htemps t ht]
    exact hnames token htoken hkind
  obtain ⟨hfree, hreads⟩ := (quadruples_read_by_names herrors).2 hspelled
  have hreader := hreads Nat counting (fun _ _ => rfl) (fun _ => none) 3
  have hmachine : Machine.after counting code 3 (.start fun _ => none) =
      .halt (.normal (.returned (some 2)) (Store.set (fun _ => none) "t2" 2)) := by
    rw [hcode]
    rfl
  rw [hmachine] at hreader
  generalize Reader.after counting _ 3 _ = move at hreader ⊢
  cases hreader with
  | @halt _ _ store hsame =>
    have ht2 := hsame "t2" fun t ht => by rw [htemps t ht]; decide
    exact ⟨herrors, hspelled, hfree, store, ht2.symm, rfl⟩

/-- The temporary of `1 + 2` overwrites the variable `t1`: the machine returns its value, the reader the sum. -/
theorem captured_variable :
    let source := "t1 = 5; x = 1 + 2; return t1;"
    let code := quadruples (parse (tokenize source)).program
    (∀ t ∈ tokenize source, t.isError = false) ∧ (parse (tokenize source)).errors = [] ∧ ¬ CaptureFree code ∧
      (∃ store, Machine.after counting code 4 (.start fun _ => none) =
        .halt (.normal (.returned (some 1)) store)) ∧
      ∃ store, Reader.after counting ((quadrupleTable code).rows.filterMap Row.ofCells) 4 ⟨0, fun _ => none⟩ =
        .halt (.normal (.returned (some 2)) store) := by
  intro source code
  have hcode : code = [⟨.assign, .name "5", .empty, .name "t1"⟩,
      ⟨.binary "+", .name "1", .name "2", .temp ⟨1⟩⟩, ⟨.assign, .temp ⟨1⟩, .empty, .name "x"⟩,
      ⟨.ret, .name "t1", .empty, .empty⟩] := by decide +kernel
  have hcaptured : ¬ CaptureFree code := by
    intro hfree
    exact hfree ⟨1⟩ "t1" (by rw [hcode]; decide) (by rw [hcode]; decide) (by decide)
  have hmachine : Machine.after counting code 4 (.start fun _ => none) =
      .halt (.normal (.returned (some 1)) (Store.set (Store.set (fun _ => none) "t1" 1) "x" 2)) := by
    rw [hcode]
    rfl
  have hreader : Reader.after counting ((quadrupleTable code).rows.filterMap Row.ofCells) 4 ⟨0, fun _ => none⟩ =
      .halt (.normal (.returned (some 2))
        (Store.set (Store.set (Store.set (fun _ => none) "t1" 1) "t1" 2) "x" 2)) := by
    rw [rows_quadrupleTable, hcode]
    rfl
  exact ⟨by decide +kernel, by decide +kernel, hcaptured, ⟨_, hmachine⟩, _, hreader⟩

end ThreeAddress
