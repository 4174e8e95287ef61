import Mathlib.Data.List.Forall2
import ThreeAddress.Code.Listing
import ThreeAddress.Proofs.Code.Bare
import ThreeAddress.Proofs.Code.Values
import ThreeAddress.Proofs.Code.Words
import ThreeAddress.Proofs.Token.Single

/-!
# Listings are unambiguous

The listing of the triples of a source without lexical errors determines the triples (`triples_eq_of_listTriples_eq`).
An instruction alone is not determined by its line, since an assignment and the operator `=` are printed alike.

* `Operand.append_inj`: the text of an operand tells what it is and where it ends;
* `Triple.line_append_inj`, `alike_of_lines_eq`: one line, and all lines, by induction on the listing;
* `isBinary_iff_ref_mem`: an instruction computes a value exactly if its index is read somewhere.
-/

namespace ThreeAddress

/-! ### Operands -/

/-- An operand that is told by its text where no label stands: a word that is one token, a computed value, or
nothing. -/
def Operand.IsWord : Operand → Prop
  | name text => OneToken text.toList
  | ref _ => True
  | empty => True
  | _ => False

/-- Whether an operand may stand where a label stands, or where none does. -/
def Operand.Fits (isLabel : Bool) (a : Operand) : Prop := if isLabel then ∃ l, a = .label l else a.IsWord

section Operands

variable {w w' : Char} {rest rest' : List Char}

/-- A word is not nothing and no computed value. -/
private theorem OneToken.append_ne_empty {text : List Char} (h : OneToken text) :
    text ++ rest ≠ Operand.empty.display.toList ++ rest' := by
  obtain ⟨c, more, kind, rfl, -⟩ := id h
  intro heq
  simp only [Operand.display, String.reduceToList, List.cons_append, List.cons.injEq] at heq
  exact h.of_first.2 heq.1

private theorem OneToken.append_ne_ref {text : List Char} (h : OneToken text) (hw : EndsTokens w) (i : Nat) :
    text ++ w :: rest ≠ (Operand.ref i).display.toList ++ rest' := by
  obtain ⟨c, more, kind, rfl, -⟩ := id h
  obtain ⟨d, digits, hdigits, hd⟩ := exists_repr_eq_cons i
  intro heq
  simp only [Operand.display, String.toList_append, hdigits, String.reduceToList, List.cons_append,
    List.nil_append, List.cons.injEq] at heq
  rw [h.of_first.1 heq.1, List.nil_append, List.cons.injEq] at heq
  rw [← heq.2.1, hw.digit] at hd
  cases hd

theorem Label.append_inj {l l' : Label} (hw : EndsTokens w) (hw' : EndsTokens w')
    (h : l.display.toList ++ w :: rest = l'.display.toList ++ w' :: rest') : l = l' ∧ w :: rest = w' :: rest' := by
  simp only [Label.display, String.toList_append, List.append_assoc] at h
  obtain ⟨hnumber, hrest⟩ := repr_append_inj (noDigit_cons hw.digit rest) (noDigit_cons hw'.digit rest')
    (List.append_cancel_left h)
  exact ⟨congrArg Label.mk (UInt32.toNat_inj.1 hnumber), hrest⟩

theorem Operand.IsWord.append_inj {a b : Operand} (ha : a.IsWord) (hb : b.IsWord) (hw : EndsTokens w)
    (hw' : EndsTokens w') (h : a.display.toList ++ w :: rest = b.display.toList ++ w' :: rest') :
    a = b ∧ w :: rest = w' :: rest' := by
  cases a with
  | name text =>
    cases b with
    | name text' =>
      obtain ⟨htext, hrest⟩ := OneToken.append_inj ha hb hw hw' h
      exact ⟨congrArg _ (String.toList_injective htext), hrest⟩
    | ref i => exact absurd h (OneToken.append_ne_ref ha hw i)
    | empty => exact absurd h (OneToken.append_ne_empty ha)
    | temp t => cases hb
    | label l => cases hb
  | ref i =>
    cases b with
    | name text => exact absurd h.symm (OneToken.append_ne_ref hb hw' i)
    | ref j =>
      have hclose : ∀ text, NoDigit (")".toList ++ text) := noDigit_cons (by decide)
      simp only [Operand.display, String.toList_append, List.append_assoc] at h
      obtain ⟨rfl, hrest⟩ := repr_append_inj (hclose _) (hclose _) (List.append_cancel_left h)
      exact ⟨rfl, List.append_cancel_left hrest⟩
    | empty => simp [Operand.display] at h
    | temp t => cases hb
    | label l => cases hb
  | empty =>
    cases b with
    | name text => exact absurd h.symm (OneToken.append_ne_empty hb)
    | ref i => simp [Operand.display] at h
    | empty => exact ⟨rfl, List.append_cancel_left h⟩
    | temp t => cases hb
    | label l => cases hb
  | temp t => cases ha
  | label l => cases ha

/-- The text of an operand tells what it is and where it ends. -/
theorem Operand.append_inj {isLabel : Bool} {a b : Operand} (ha : a.Fits isLabel) (hb : b.Fits isLabel)
    (hw : EndsTokens w) (hw' : EndsTokens w')
    (h : a.display.toList ++ w :: rest = b.display.toList ++ w' :: rest') : a = b ∧ w :: rest = w' :: rest' := by
  cases isLabel with
  | false => exact Operand.IsWord.append_inj ha hb hw hw' h
  | true =>
    obtain ⟨l, rfl⟩ := ha
    obtain ⟨l', rfl⟩ := hb
    obtain ⟨rfl, hrest⟩ := Label.append_inj hw hw' h
    exact ⟨rfl, hrest⟩

end Operands

/-! ### Lines -/

/-- An opcode as code from tokens has it: an operator is made of the characters for operators. -/
def Opcode.IsSpelled : Opcode → Prop
  | binary op => ∀ c ∈ op.toList, isOperatorChar c
  | _ => True

/-- Whether the first operand of a triple with this opcode is a label. -/
def Opcode.labelFirst : Opcode → Bool
  | goto => true
  | label => true
  | _ => false

/-- Whether the second operand of a triple with this opcode is a label. -/
def Opcode.labelSecond (op : Opcode) : Bool := op = .ifFalse

/-- A triple whose fields are what its opcode asks for. -/
structure Triple.IsReadable (t : Triple) : Prop where
  op : t.op.IsSpelled
  arg1 : t.arg1.Fits t.op.labelFirst
  arg2 : t.arg2.Fits t.op.labelSecond

/-- Triples that are printed alike: only their opcodes may differ. -/
structure Triple.Alike (t t' : Triple) : Prop where
  op : t.op.display = t'.op.display
  arg1 : t.arg1 = t'.arg1
  arg2 : t.arg2 = t'.arg2

private theorem Opcode.ne_comma_of_mem_display {op : Opcode} (h : op.IsSpelled) : ∀ c ∈ op.display.toList, c ≠ ',' := by
  cases op with
  | binary word =>
    rintro c hc rfl
    exact absurd (h ',' hc) (by decide)
  | _ => simp [Opcode.display]

/-- Whether an opcode is printed as an operator. -/
def Opcode.isOperation : Opcode → Bool
  | binary _ => true
  | assign => true
  | _ => false

private theorem Opcode.isOperation_iff {op : Opcode} (h : op.IsSpelled) :
    op.isOperation ↔ ∀ c ∈ op.display.toList, isOperatorChar c := by
  have hletter : ¬ isOperatorChar 'I' ∧ ¬ isOperatorChar 'G' ∧ ¬ isOperatorChar 'L' ∧ ¬ isOperatorChar 'R' := by
    decide
  obtain ⟨hI, hG, hL, hR⟩ := hletter
  cases op with
  | binary word => exact iff_of_true rfl h
  | assign => exact iff_of_true rfl (by simp [Opcode.display, isOperatorChar])
  | ifFalse => simp [isOperation, Opcode.display, hI]
  | goto => simp [isOperation, Opcode.display, hG]
  | label => simp [isOperation, Opcode.display, hL]
  | ret => simp [isOperation, Opcode.display, hR]

section Opcodes

variable {op op' : Opcode} (hop : op.IsSpelled) (hop' : op'.IsSpelled) (h : op.display = op'.display)
include hop hop' h

private theorem Opcode.eq_or_isOperation : op = op' ∨ op.isOperation ∧ op'.isOperation := by
  have hsame : op.isOperation ↔ op'.isOperation := by rw [isOperation_iff hop, isOperation_iff hop', h]
  by_cases hoperation : op.isOperation
  · exact Or.inr ⟨hoperation, hsame.1 hoperation⟩
  · have hoperation' : ¬ op'.isOperation := fun h' => hoperation (hsame.2 h')
    left
    cases op <;> cases op' <;> simp [isOperation, Opcode.display] at hoperation hoperation' h ⊢

private theorem Opcode.eq_of_isBinary_eq (hbinary : op.isBinary = op'.isBinary) : op = op' := by
  rcases eq_or_isOperation hop hop' h with rfl | ⟨hoperation, hoperation'⟩
  · rfl
  · cases op with
    | binary word =>
      cases op' with
      | binary word' => exact congrArg binary h
      | assign => cases hbinary
      | _ => cases hoperation'
    | assign =>
      cases op' with
      | binary word' => cases hbinary
      | assign => rfl
      | _ => cases hoperation'
    | _ => cases hoperation

private theorem Opcode.labels_eq : op.labelFirst = op'.labelFirst ∧ op.labelSecond = op'.labelSecond := by
  rcases eq_or_isOperation hop hop' h with rfl | ⟨hoperation, hoperation'⟩
  · exact ⟨rfl, rfl⟩
  · cases op <;> cases hoperation <;> cases op' <;> cases hoperation' <;> exact ⟨rfl, rfl⟩

end Opcodes

/-- The line of a triple in a listing. -/
def Triple.line (t : Triple) (index : Nat) : List Char := (index.repr ++ ": " ++ t.display ++ "\n").toList

private theorem Triple.line_append (t : Triple) (index : Nat) (rest : List Char) : t.line index ++ rest =
    index.repr.toList ++ ": (".toList ++ (t.op.display.toList ++ ',' :: ' ' ::
      (t.arg1.display.toList ++ ',' :: ' ' :: (t.arg2.display.toList ++ ')' :: '\n' :: rest))) := by
  simp [Triple.line, Triple.display]

theorem Triple.line_append_inj {t t' : Triple} (ht : t.IsReadable) (ht' : t'.IsReadable) {index : Nat}
    {rest rest' : List Char} (h : t.line index ++ rest = t'.line index ++ rest') : t.Alike t' ∧ rest = rest' := by
  have hcomma : EndsTokens ',' := ⟨by decide, by decide, by decide, by decide, by decide⟩
  have hclose : EndsTokens ')' := ⟨by decide, by decide, by decide, by decide, by decide⟩
  rw [Triple.line_append, Triple.line_append] at h
  -- no opcode has a comma in it
  obtain ⟨hop, -, h⟩ := append_cons_inj (p := (· ≠ ',')) (Opcode.ne_comma_of_mem_display ht.op) (by simp)
    (Opcode.ne_comma_of_mem_display ht'.op) (by simp) (List.append_cancel_left h)
  have hdisplay := String.toList_injective hop
  obtain ⟨hfirst, hsecond⟩ := Opcode.labels_eq ht.op ht'.op hdisplay
  have harg1 := ht'.arg1
  have harg2 := ht'.arg2
  rw [← hfirst] at harg1
  rw [← hsecond] at harg2
  obtain ⟨hsame1, h⟩ := Operand.append_inj ht.arg1 harg1 hcomma hcomma (List.cons.inj h).2
  obtain ⟨hsame2, h⟩ := Operand.append_inj ht.arg2 harg2 hclose hclose (List.cons.inj (List.cons.inj h).2).2
  exact ⟨⟨hdisplay, hsame1, hsame2⟩, (List.cons.inj (List.cons.inj h).2).2⟩

private theorem toList_listTriples (code : List Triple) :
    (listTriples code).toList = code.zipIdx.flatMap fun p => p.1.line p.2 := by
  rw [listTriples, String.toList_join, List.flatMap_map]
  rfl

theorem alike_of_lines_eq {code code' : List Triple} (hcode : ∀ t ∈ code, t.IsReadable)
    (hcode' : ∀ t ∈ code', t.IsReadable) {index : Nat}
    (h : ((code.zipIdx index).flatMap fun p => p.1.line p.2) = (code'.zipIdx index).flatMap fun p => p.1.line p.2) :
    List.Forall₂ Triple.Alike code code' := by
  induction code generalizing code' index with
  | nil =>
    cases code' with
    | nil => exact .nil
    | cons t' code' => simp [Triple.line] at h
  | cons t code ih =>
    cases code' with
    | nil => simp [Triple.line] at h
    | cons t' code' =>
      simp only [List.zipIdx_cons, List.flatMap_cons] at h
      rw [List.forall_mem_cons] at hcode hcode'
      obtain ⟨halike, hrest⟩ := Triple.line_append_inj hcode.1 hcode'.1 h
      exact .cons halike (ih hcode.2 hcode'.2 hrest)

/-! ### Values -/

/-- An instruction of a program computes a value exactly if its index is read. -/
theorem isBinary_iff_ref_mem {program : Program} {i : Nat} {t : Triple} (hi : (triples program)[i]? = some t) :
    t.op.isBinary ↔ Operand.ref i ∈ (triples program).flatMap Fields.args := by
  rw [triples_eq, List.getElem?_map, Option.map_eq_some_iff] at hi
  obtain ⟨d, hd, rfl⟩ := hi
  have hbinary : (d.spell Triple).op.isBinary = d.isCompute := isBinary_op_spell (ι := Triple) d
  rw [hbinary, triples_eq, List.mem_flatMap]
  constructor
  · intro hcompute
    obtain ⟨temp, htemp⟩ := Option.isSome_iff_exists.1 hcompute
    obtain ⟨j, c, -, hj, hread, -⟩ := exists_read_behind hd htemp
    obtain ⟨r, hr, rfl⟩ := List.mem_map.1 hread
    obtain ⟨op, lhs, rhs, hindex⟩ := computedIn_of_mem_reads (List.mem_of_getElem? hj) hr
    have hsame : r.1 = i := by
      refine index_unique (f := Sketch.temp?) ?_ hindex rfl hd htemp
      have htemps : (sketchAll program 0).filterMap Sketch.temp? = List.range' 1 (tallyAll program).temps :=
        sketchAll_temps program 0
      rw [htemps]
      exact List.nodup_range'
    exact ⟨_, List.mem_map.2 ⟨c, List.mem_of_getElem? hj, rfl⟩, (mem_args_spell rfl).2 ⟨r, hr, congrArg _ hsame⟩⟩
  · rintro ⟨c, hc, hargs⟩
    obtain ⟨e, he, rfl⟩ := List.mem_map.1 hc
    obtain ⟨r, hr, hsame⟩ := (mem_args_spell rfl).1 hargs
    obtain ⟨op, lhs, rhs, hindex⟩ := computedIn_of_mem_reads he hr
    obtain rfl : r.1 = i := Operand.ref.inj hsame
    rw [hd, Option.some.injEq] at hindex
    rw [hindex]
    rfl

private theorem flatMap_args_of_alike {code code' : List Triple} (h : List.Forall₂ Triple.Alike code code') :
    code.flatMap Fields.args = code'.flatMap Fields.args := by
  induction h with
  | nil => rfl
  | @cons t t' _ _ hfirst _ ih =>
    have hargs : Fields.args t = Fields.args t' := by simp [Fields.args, hfirst.arg1, hfirst.arg2]
    rw [List.flatMap_cons, List.flatMap_cons, hargs, ih]

/-- Programs whose triples are printed alike have the same triples: the indices that are read tell which of them
compute values. -/
private theorem triples_eq_of_alike {program program' : Program} (hspelled : ∀ t ∈ triples program, t.op.IsSpelled)
    (hspelled' : ∀ t ∈ triples program', t.op.IsSpelled)
    (h : List.Forall₂ Triple.Alike (triples program) (triples program')) : triples program = triples program' := by
  obtain ⟨hlength, halike⟩ := List.forall₂_iff_get.1 h
  refine List.ext_getElem hlength ?_
  intro i hi hi'
  obtain ⟨hdisplay, harg1, harg2⟩ := halike i hi hi'
  have hbinary : (triples program)[i].op.isBinary = (triples program')[i].op.isBinary := by
    rw [Bool.eq_iff_iff, isBinary_iff_ref_mem (List.getElem?_eq_getElem hi),
      isBinary_iff_ref_mem (List.getElem?_eq_getElem hi'), flatMap_args_of_alike h]
  have hop := Opcode.eq_of_isBinary_eq (hspelled _ (List.getElem_mem hi)) (hspelled' _ (List.getElem_mem hi'))
    hdisplay hbinary
  exact (Triple.mk.injEq ..).mpr ⟨hop, harg1, harg2⟩

/-! ### Sources -/

theorem Leaf.toList_text_ofToken (t : Token) : (Leaf.ofToken t).text.toList = t.written := by
  unfold Leaf.ofToken Token.written
  split <;> simp_all [Leaf.text]

section Source

variable {source : String} (herrors : ∀ t ∈ tokenize source, t.isError = false)
include herrors

theorem oneToken_ofToken {t : Token} (ht : t ∈ (Input.ofTokens (tokenize source)).tokens) :
    OneToken (Leaf.ofToken t).text.toList := by
  obtain ⟨hmem, hend⟩ := mem_ofTokens ht
  rw [Leaf.toList_text_ofToken]
  exact oneToken_written hmem (by simpa [Token.isEnd] using hend) (herrors t hmem)

private theorem Argument.isWord_operand {a : Argument} (ha : a.MadeOf (Input.ofTokens (tokenize source)).tokens) :
    (a.operand Triple).IsWord := by
  cases a with
  | text word =>
    obtain ⟨t, ht, rfl⟩ := ha
    exact oneToken_ofToken herrors ht
  | computed index temp => exact trivial

private theorem Sketch.isReadable_spell {d : Sketch} (hd : d.MadeOf (Input.ofTokens (tokenize source)).tokens) :
    (d.spell Triple).IsReadable := by
  cases d with
  | compute op lhs rhs temp =>
    obtain ⟨⟨t, ht, hkind, rfl⟩, hlhs, hrhs⟩ := hd
    exact ⟨isOperatorChar_of_mem_lexeme (mem_ofTokens ht).1 hkind, lhs.isWord_operand herrors hlhs,
      rhs.isWord_operand herrors hrhs⟩
  | assign target value =>
    obtain ⟨⟨t, ht, hkind, rfl⟩, hvalue⟩ := hd
    have htarget := oneToken_ofToken herrors ht
    rw [Leaf.ofToken, hkind] at htarget
    exact ⟨trivial, htarget, value.isWord_operand herrors hvalue⟩
  | jumpIfFalse cond label => exact ⟨trivial, cond.isWord_operand herrors hd, _, rfl⟩
  | jump label => exact ⟨trivial, ⟨_, rfl⟩, trivial⟩
  | mark label => exact ⟨trivial, ⟨_, rfl⟩, trivial⟩
  | ret value =>
    cases value with
    | none => exact ⟨trivial, trivial, trivial⟩
    | some value => exact ⟨trivial, value.isWord_operand herrors (hd value rfl), trivial⟩

private theorem isReadable_of_mem_triples : ∀ t ∈ triples (parse (tokenize source)).program, t.IsReadable := by
  intro t ht
  rw [triples_eq] at ht
  obtain ⟨d, hd, rfl⟩ := List.mem_map.1 ht
  exact Sketch.isReadable_spell herrors (sketch_madeOf hd)

end Source

/-- Sources without lexical errors whose triples are listed alike have the same triples. -/
theorem triples_eq_of_listTriples_eq {source source' : String} (h : ∀ t ∈ tokenize source, t.isError = false)
    (h' : ∀ t ∈ tokenize source', t.isError = false)
    (hlisting : listTriples (triples (parse (tokenize source)).program) =
      listTriples (triples (parse (tokenize source')).program)) :
    triples (parse (tokenize source)).program = triples (parse (tokenize source')).program := by
  have hlines := congrArg String.toList hlisting
  rw [toList_listTriples, toList_listTriples] at hlines
  have hreadable := isReadable_of_mem_triples h
  have hreadable' := isReadable_of_mem_triples h'
  exact triples_eq_of_alike (fun t ht => (hreadable t ht).op) (fun t ht => (hreadable' t ht).op)
    (alike_of_lines_eq hreadable hreadable' hlines)

/-- A parenthesis and a string as operands of the operator `=`; the second source has an error of the grammar. -/
theorem triples_eq_of_listTriples_eq_sign :
    let source := "x=( = \",\n1: (\";"
    let source' := "x = ( /**/ = \",\n1: (\"; )"
    let listing := "0: (=, (, \",\n1: (\")\n1: (=, x, (0))\n"
    (∀ t ∈ tokenize source, t.isError = false) ∧ (∀ t ∈ tokenize source', t.isError = false) ∧
      listTriples (triples (parse (tokenize source)).program) = listing ∧
      listTriples (triples (parse (tokenize source')).program) = listing ∧
      triples (parse (tokenize source)).program = triples (parse (tokenize source')).program := by
  intro source source' listing
  have h : ∀ t ∈ tokenize source, t.isError = false := by decide +kernel
  have h' : ∀ t ∈ tokenize source', t.isError = false := by decide +kernel
  have hlisting : listTriples (triples (parse (tokenize source)).program) = listing := by decide +kernel
  have hlisting' : listTriples (triples (parse (tokenize source')).program) = listing := by decide +kernel
  exact ⟨h, h', hlisting, hlisting', triples_eq_of_listTriples_eq h h' (hlisting.trans hlisting'.symm)⟩

end ThreeAddress
