import ThreeAddress.Json
import ThreeAddress.Proofs.Text

/-!
# The text of a JSON value

The text of a value determines it (`Json.pretty_injective`).  A value is followed by the rest of the values around it,
so each statement is about a text with anything behind it: the text tells where the value ends.

* `escapeChar_append_inj`, `quoted_append_inj`: characters and strings, whatever they hold;
* `Json.form_eq_of_append`: the first character tells the form of a value;
* `Json.determined`: a value, by one case for each of its forms and for the items and the fields in it.
-/

namespace ThreeAddress

/-! ### Strings -/

def hexValue (c : Char) : Nat := if c.isDigit then c.toNat - '0'.toNat else c.toNat - 'a'.toNat + 10

/-- The first character of the content of a JSON string, and what is behind it. -/
def readEscaped : List Char → Option (Char × List Char)
  | '\\' :: 'b' :: rest => some ('\x08', rest)
  | '\\' :: 't' :: rest => some ('\t', rest)
  | '\\' :: 'n' :: rest => some ('\n', rest)
  | '\\' :: 'f' :: rest => some ('\x0c', rest)
  | '\\' :: 'r' :: rest => some ('\r', rest)
  | '\\' :: 'u' :: _ :: _ :: high :: low :: rest => some (.ofNat (16 * hexValue high + hexValue low), rest)
  | '\\' :: c :: rest => some (c, rest)
  | c :: rest => some (c, rest)
  | [] => none

private theorem hexValue_digitChar {n : Nat} (h : n < 16) : hexValue (Nat.digitChar n) = n := by
  have hall : ∀ n < 16, hexValue (Nat.digitChar n) = n := by decide
  exact hall n h

private theorem readEscaped_escapeChar (c : Char) (rest : List Char) :
    readEscaped (escapeChar c ++ rest) = some (c, rest) := by
  unfold escapeChar
  by_cases hquote : c = '"'
  · simp [hquote, readEscaped]
  by_cases hslash : c = '\\'
  · simp [hslash, readEscaped]
  by_cases hb : c = '\x08'
  · simp [hb, readEscaped]
  by_cases ht : c = '\t'
  · simp [ht, readEscaped]
  by_cases hn : c = '\n'
  · simp [hn, readEscaped]
  by_cases hf : c = '\x0c'
  · simp [hf, readEscaped]
  by_cases hr : c = '\r'
  · simp [hr, readEscaped]
  by_cases hcontrol : c.toNat < 0x20
  · have hvalue : 16 * (c.toNat / 16) + c.toNat % 16 = c.toNat := Nat.div_add_mod _ _
    have hhigh : c.toNat / 16 < 16 := by omega
    have hlow : c.toNat % 16 < 16 := by omega
    simp [hquote, hslash, hb, ht, hn, hf, hr, hcontrol, readEscaped, hexValue_digitChar hhigh, hexValue_digitChar hlow,
      hvalue]
  · simp [hquote, hslash, hb, ht, hn, hf, hr, hcontrol, readEscaped]

theorem escapeChar_append_inj {c c' : Char} {rest rest' : List Char}
    (h : escapeChar c ++ rest = escapeChar c' ++ rest') : c = c' ∧ rest = rest' := by
  have hread := readEscaped_escapeChar c rest
  rw [h, readEscaped_escapeChar] at hread
  simpa [eq_comm] using hread

/-- The quote that ends a string is not taken for a character of it. -/
private theorem escapeChar_append_ne (c : Char) (rest rest' : List Char) : escapeChar c ++ rest ≠ '"' :: rest' := by
  unfold escapeChar
  repeat' split
  all_goals simp_all

private theorem escaped_append_inj {cs cs' rest rest' : List Char}
    (h : cs.flatMap escapeChar ++ '"' :: rest = cs'.flatMap escapeChar ++ '"' :: rest') :
    cs = cs' ∧ rest = rest' := by
  induction cs generalizing cs' with
  | nil =>
    cases cs' with
    | nil => exact ⟨rfl, (List.cons.inj h).2⟩
    | cons c' cs' =>
      rw [List.flatMap_cons, List.append_assoc] at h
      exact absurd h.symm (escapeChar_append_ne _ _ _)
  | cons c cs ih =>
    rw [List.flatMap_cons, List.append_assoc] at h
    cases cs' with
    | nil => exact absurd h (escapeChar_append_ne _ _ _)
    | cons c' cs' =>
      rw [List.flatMap_cons, List.append_assoc] at h
      obtain ⟨rfl, htail⟩ := escapeChar_append_inj h
      obtain ⟨rfl, hrest⟩ := ih htail
      exact ⟨rfl, hrest⟩

theorem quoted_append_inj {s s' : String} {rest rest' : List Char}
    (h : (quoted s).toList ++ rest = (quoted s').toList ++ rest') : s = s' ∧ rest = rest' := by
  simp only [quoted, String.toList_append, String.toList_ofList, List.append_assoc] at h
  obtain ⟨hs, hrest⟩ := escaped_append_inj (List.cons.inj h).2
  exact ⟨String.toList_injective hs, hrest⟩

/-! ### Values -/

section Render

variable (depth : Nat)

@[simp] theorem Json.render_null : null.render depth = "null" := rfl

@[simp] theorem Json.render_num (n : Nat) : (num n).render depth = n.repr := rfl

@[simp] theorem Json.render_str (s : String) : (str s).render depth = quoted s := rfl

@[simp] theorem Json.render_arr_nil : (arr []).render depth = "[]" := rfl

@[simp] theorem Json.render_arr_cons (item : Json) (rest : List Json) : (arr (item :: rest)).render depth =
    "[" ++ lineBreak (depth + 1) ++ item.render (depth + 1) ++ renderItems (depth + 1) rest ++ lineBreak depth ++
      "]" := rfl

@[simp] theorem Json.render_obj_nil : (obj []).render depth = "\x7b\x7d" := rfl

@[simp] theorem Json.render_obj_cons (key : String) (value : Json) (rest : List (String × Json)) :
    (obj ((key, value) :: rest)).render depth =
      "\x7b" ++ lineBreak (depth + 1) ++ quoted key ++ ": " ++ value.render (depth + 1) ++
        renderFields (depth + 1) rest ++ lineBreak depth ++ "\x7d" := rfl

@[simp] theorem renderItems_nil : renderItems depth [] = "" := rfl

@[simp] theorem renderItems_cons (item : Json) (rest : List Json) : renderItems depth (item :: rest) =
    "," ++ lineBreak depth ++ item.render depth ++ renderItems depth rest := rfl

@[simp] theorem renderFields_nil : renderFields depth [] = "" := rfl

@[simp] theorem renderFields_cons (key : String) (value : Json) (rest : List (String × Json)) :
    renderFields depth ((key, value) :: rest) =
      "," ++ lineBreak depth ++ quoted key ++ ": " ++ value.render depth ++ renderFields depth rest := rfl

end Render

/-- The forms of a value. -/
inductive Json.Form where
  | null | num | str | arr | obj
deriving DecidableEq, Repr

def Json.form : Json → Form
  | null => .null
  | num _ => .num
  | str _ => .str
  | arr _ => .arr
  | obj _ => .obj

/-- The form of the values whose texts begin with the character. -/
def Json.leadForm (c : Char) : Form :=
  if c = 'n' then .null else if c = '"' then .str else if c = '[' then .arr else if c = '\x7b' then .obj else .num

private theorem Json.leadForm_of_isDigit {c : Char} (hc : c.isDigit) : leadForm c = .num := by
  unfold leadForm
  rw [if_neg, if_neg, if_neg, if_neg]
  all_goals
    rintro rfl
    exact absurd hc (by decide)

private theorem Json.map_leadForm_head? (v : Json) (depth : Nat) (rest : List Char) :
    ((v.render depth).toList ++ rest).head?.map leadForm = some v.form := by
  cases v with
  | null => simp [leadForm, form]
  | num n =>
    obtain ⟨c, digits, hdigits, hc⟩ := exists_repr_eq_cons n
    simp [hdigits, leadForm_of_isDigit hc, form]
  | str s => simp [quoted, leadForm, form]
  | arr items => cases items <;> simp [leadForm, form]
  | obj fields =>
    cases fields with
    | nil => simp [leadForm, form]
    | cons field fields =>
      obtain ⟨key, value⟩ := field
      simp [leadForm, form]

theorem Json.form_eq_of_append {v v' : Json} {depth : Nat} {rest rest' : List Char}
    (h : (v.render depth).toList ++ rest = (v'.render depth).toList ++ rest') : v.form = v'.form := by
  have hlead := v.map_leadForm_head? depth rest
  rw [h, v'.map_leadForm_head? depth rest', Option.some.injEq] at hlead
  exact hlead.symm

/-- The blanks in front of a line. -/
def indent (depth : Nat) : List Char := List.replicate (2 * depth) ' '

section Texts

variable (depth : Nat) (rest : List Char)

private theorem Json.toList_arr_cons (item : Json) (items : List Json) :
    ((arr (item :: items)).render depth).toList ++ rest =
      '[' :: '\n' :: (indent (depth + 1) ++ ((item.render (depth + 1)).toList ++
        ((renderItems (depth + 1) items).toList ++ '\n' :: (indent depth ++ ']' :: rest)))) := by
  simp [lineBreak, indent]

private theorem Json.toList_obj_cons (key : String) (value : Json) (fields : List (String × Json)) :
    ((obj ((key, value) :: fields)).render depth).toList ++ rest =
      '\x7b' :: '\n' :: (indent (depth + 1) ++ ((quoted key).toList ++ ':' :: ' ' ::
        ((value.render (depth + 1)).toList ++
          ((renderFields (depth + 1) fields).toList ++ '\n' :: (indent depth ++ '\x7d' :: rest))))) := by
  simp [lineBreak, indent]

private theorem toList_renderItems_cons (item : Json) (items : List Json) :
    (renderItems depth (item :: items)).toList ++ rest =
      ',' :: '\n' :: (indent depth ++ ((item.render depth).toList ++ ((renderItems depth items).toList ++ rest))) := by
  simp [lineBreak, indent]

private theorem toList_renderFields_cons (key : String) (value : Json) (fields : List (String × Json)) :
    (renderFields depth ((key, value) :: fields)).toList ++ rest =
      ',' :: '\n' :: (indent depth ++ ((quoted key).toList ++ ':' :: ' ' ::
        ((value.render depth).toList ++ ((renderFields depth fields).toList ++ rest)))) := by
  simp [lineBreak, indent]

private theorem noDigit_renderItems (items : List Json) :
    NoDigit ((renderItems depth items).toList ++ '\n' :: rest) := by
  cases items with
  | nil => simpa using noDigit_cons (by decide) rest
  | cons item items =>
    rw [toList_renderItems_cons]
    exact noDigit_cons (by decide) _

private theorem noDigit_renderFields (fields : List (String × Json)) :
    NoDigit ((renderFields depth fields).toList ++ '\n' :: rest) := by
  cases fields with
  | nil => simpa using noDigit_cons (by decide) rest
  | cons field fields =>
    rw [toList_renderFields_cons]
    exact noDigit_cons (by decide) _

end Texts

/-- The text of the value determines it, and what is behind it. -/
def Json.Determined (v : Json) : Prop :=
  ∀ ⦃v' : Json⦄ ⦃depth : Nat⦄ ⦃rest rest' : List Char⦄, NoDigit rest → NoDigit rest' →
    (v.render depth).toList ++ rest = (v'.render depth).toList ++ rest' → v = v' ∧ rest = rest'

/-- The items behind the first of a list are determined: they end where the line of the bracket begins. -/
def ItemsDetermined (items : List Json) : Prop :=
  ∀ ⦃items' : List Json⦄ ⦃depth : Nat⦄ ⦃rest rest' : List Char⦄,
    (renderItems depth items).toList ++ '\n' :: rest = (renderItems depth items').toList ++ '\n' :: rest' →
      items = items' ∧ rest = rest'

/-- The fields behind the first of an object are determined: they end where the line of the brace begins. -/
def FieldsDetermined (fields : List (String × Json)) : Prop :=
  ∀ ⦃fields' : List (String × Json)⦄ ⦃depth : Nat⦄ ⦃rest rest' : List Char⦄,
    (renderFields depth fields).toList ++ '\n' :: rest = (renderFields depth fields').toList ++ '\n' :: rest' →
      fields = fields' ∧ rest = rest'

namespace Json

private theorem determined_null : Determined null := by
  intro v' depth rest rest' _ _ h
  have hform := form_eq_of_append h
  cases v' with
  | null => exact ⟨rfl, List.append_cancel_left h⟩
  | _ => cases hform

private theorem determined_num (n : Nat) : Determined (num n) := by
  intro v' depth rest rest' hrest hrest' h
  have hform := form_eq_of_append h
  cases v' with
  | num n' =>
    rw [render_num, render_num] at h
    obtain ⟨rfl, hsame⟩ := repr_append_inj hrest hrest' h
    exact ⟨rfl, hsame⟩
  | _ => cases hform

private theorem determined_str (s : String) : Determined (str s) := by
  intro v' depth rest rest' _ _ h
  have hform := form_eq_of_append h
  cases v' with
  | str s' =>
    rw [render_str, render_str] at h
    obtain ⟨rfl, hsame⟩ := quoted_append_inj h
    exact ⟨rfl, hsame⟩
  | _ => cases hform

private theorem determined_arr_nil : Determined (arr []) := by
  intro v' depth rest rest' _ _ h
  have hform := form_eq_of_append h
  cases v' with
  | arr items' =>
    cases items' with
    | nil => exact ⟨rfl, List.append_cancel_left h⟩
    | cons item' items' =>
      rw [toList_arr_cons] at h
      simp at h
  | _ => cases hform

private theorem determined_arr_cons {item : Json} {items : List Json} (hitem : item.Determined)
    (hitems : ItemsDetermined items) : Determined (arr (item :: items)) := by
  intro v' depth rest rest' _ _ h
  have hform := form_eq_of_append h
  cases v' with
  | arr items' =>
    rw [toList_arr_cons] at h
    cases items' with
    | nil => simp at h
    | cons item' items' =>
      rw [toList_arr_cons] at h
      obtain ⟨rfl, hmore⟩ := hitem (noDigit_renderItems _ _ _) (noDigit_renderItems _ _ _)
        (List.append_cancel_left (List.cons.inj (List.cons.inj h).2).2)
      obtain ⟨rfl, hend⟩ := hitems hmore
      exact ⟨rfl, (List.cons.inj (List.append_cancel_left hend)).2⟩
  | _ => cases hform

private theorem determined_obj_nil : Determined (obj []) := by
  intro v' depth rest rest' _ _ h
  have hform := form_eq_of_append h
  cases v' with
  | obj fields' =>
    cases fields' with
    | nil => exact ⟨rfl, List.append_cancel_left h⟩
    | cons field' fields' =>
      rw [toList_obj_cons] at h
      simp at h
  | _ => cases hform

private theorem determined_obj_cons (key : String) {value : Json}
    {fields : List (String × Json)} (hvalue : value.Determined)
    (hfields : FieldsDetermined fields) : Determined (obj ((key, value) :: fields)) := by
  intro v' depth rest rest' _ _ h
  have hform := form_eq_of_append h
  cases v' with
  | obj fields' =>
    rw [toList_obj_cons] at h
    cases fields' with
    | nil => simp at h
    | cons field' fields' =>
      rw [toList_obj_cons] at h
      obtain ⟨rfl, hcolon⟩ := quoted_append_inj (List.append_cancel_left (List.cons.inj (List.cons.inj h).2).2)
      obtain ⟨rfl, hmore⟩ := hvalue (noDigit_renderFields _ _ _) (noDigit_renderFields _ _ _)
        (List.cons.inj (List.cons.inj hcolon).2).2
      obtain ⟨rfl, hend⟩ := hfields hmore
      exact ⟨rfl, (List.cons.inj (List.append_cancel_left hend)).2⟩
  | _ => cases hform

end Json

private theorem itemsDetermined_nil : ItemsDetermined [] := by
  intro items' depth rest rest' h
  cases items' with
  | nil => exact ⟨rfl, (List.cons.inj h).2⟩
  | cons item' items' =>
    rw [toList_renderItems_cons] at h
    cases h

private theorem itemsDetermined_cons {item : Json} {items : List Json} (hitem : item.Determined)
    (hitems : ItemsDetermined items) : ItemsDetermined (item :: items) := by
  intro items' depth rest rest' h
  rw [toList_renderItems_cons] at h
  cases items' with
  | nil => cases h
  | cons item' items' =>
    rw [toList_renderItems_cons] at h
    obtain ⟨rfl, hmore⟩ := hitem (noDigit_renderItems _ _ _) (noDigit_renderItems _ _ _)
      (List.append_cancel_left (List.cons.inj (List.cons.inj h).2).2)
    obtain ⟨rfl, hsame⟩ := hitems hmore
    exact ⟨rfl, hsame⟩

private theorem fieldsDetermined_nil : FieldsDetermined [] := by
  intro fields' depth rest rest' h
  cases fields' with
  | nil => exact ⟨rfl, (List.cons.inj h).2⟩
  | cons field' fields' =>
    rw [toList_renderFields_cons] at h
    cases h

private theorem fieldsDetermined_cons (key : String) {value : Json} {fields : List (String × Json)}
    (hvalue : value.Determined) (hfields : FieldsDetermined fields) : FieldsDetermined ((key, value) :: fields) := by
  intro fields' depth rest rest' h
  rw [toList_renderFields_cons] at h
  cases fields' with
  | nil => cases h
  | cons field' fields' =>
    rw [toList_renderFields_cons] at h
    obtain ⟨rfl, hcolon⟩ := quoted_append_inj (List.append_cancel_left (List.cons.inj (List.cons.inj h).2).2)
    obtain ⟨rfl, hmore⟩ := hvalue (noDigit_renderFields _ _ _) (noDigit_renderFields _ _ _)
      (List.cons.inj (List.cons.inj hcolon).2).2
    obtain ⟨rfl, hsame⟩ := hfields hmore
    exact ⟨rfl, hsame⟩

mutual

theorem Json.determined (v : Json) : v.Determined := by
  match v with
  | .null => exact Json.determined_null
  | .num n => exact Json.determined_num n
  | .str s => exact Json.determined_str s
  | .arr [] => exact Json.determined_arr_nil
  | .arr (item :: items) => exact Json.determined_arr_cons item.determined (itemsDetermined items)
  | .obj [] => exact Json.determined_obj_nil
  | .obj ((key, value) :: fields) => exact Json.determined_obj_cons key value.determined (fieldsDetermined fields)

private theorem itemsDetermined (items : List Json) : ItemsDetermined items := by
  match items with
  | [] => exact itemsDetermined_nil
  | item :: items => exact itemsDetermined_cons item.determined (itemsDetermined items)

private theorem fieldsDetermined (fields : List (String × Json)) : FieldsDetermined fields := by
  match fields with
  | [] => exact fieldsDetermined_nil
  | (key, value) :: fields => exact fieldsDetermined_cons key value.determined (fieldsDetermined fields)

end

theorem Json.pretty_injective : Function.Injective Json.pretty := by
  intro v v' h
  have htext : (v.render 0).toList ++ [] = (v'.render 0).toList ++ [] := by
    rw [show v.render 0 = v'.render 0 from h]
  exact (v.determined noDigit_nil noDigit_nil htext).1

end ThreeAddress
