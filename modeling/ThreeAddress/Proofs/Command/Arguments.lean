import Mathlib.Data.List.TakeWhile
import ThreeAddress.Command.Options

/-!
# An output among the arguments

Arguments that ask for a run without an output ask for the same run with one when the option for it is put between
them, in any of its spellings (`ofArgs_insert`).

* `GoesAlike`: what one argument does to settings without an output, it does to settings with one;
* `goesAlike_take`: so for all arguments, by the functions that take them apart;
* `Draft.read_withOutput`: all remaining arguments, one step for each;
* `OutputArgs.takeAll_eq`: what the option itself does.
-/

namespace ThreeAddress

/-! ### One argument -/

/-- The settings with an output. -/
def Draft.withOutput (d : Draft) (path : String) : Draft := { d with output := some path }

@[simp] theorem Draft.withOutput_literal (d : Draft) (path : String) : (d.withOutput path).literal = d.literal := rfl

@[simp] theorem Draft.withOutput_pending (d : Draft) (path : String) : (d.withOutput path).pending = d.pending := rfl

/-- Where `shown` gives settings without an output, `kept` gives the same with one, and `shown` asks for no run. -/
structure GoesAlike (path : String) (d : Draft) (shown kept : Progress) : Prop where
  settings : ∀ d', shown = .ok (.inl d') → d'.output = none →
    d.output = none ∧ kept = .ok (.inl (d'.withOutput path))
  request : ∀ options, shown ≠ .ok (.inr (.run options))

section Alike

variable (path : String) (d : Draft)

private theorem goesAlike_error (e : UsageError) (kept : Progress) : GoesAlike path d (.error e) kept := by
  constructor
  · intro d' h
    cases h
  · intro options h
    cases h

private theorem goesAlike_answer {request : Request} (h : ∀ options, request ≠ .run options) (kept : Progress) :
    GoesAlike path d (.ok (.inr request)) kept := by
  constructor
  · intro d' h
    cases h
  · rintro options ⟨⟩
    exact h options rfl

private theorem goesAlike_ok {d' : Draft} {kept : Progress}
    (h : d'.output = none → d.output = none ∧ kept = .ok (.inl (d'.withOutput path))) :
    GoesAlike path d (.ok (.inl d')) kept := by
  constructor
  · rintro d' ⟨⟩
    exact h
  · intro options h
    cases h

/-- An argument that does not look at the output. -/
private theorem goesAlike_kept {d' : Draft} (houtput : d'.output = d.output) :
    GoesAlike path d (.ok (.inl d')) (.ok (.inl (d'.withOutput path))) := by
  refine goesAlike_ok path d ?_
  intro hnone
  exact ⟨houtput ▸ hnone, rfl⟩

/-- Settings that an argument makes, where these are not the output. -/
private theorem goesAlike_settings {shown kept : Except UsageError Draft}
    (h : ∀ d', shown = .ok d' → d'.output = none → d.output = none ∧ kept = .ok (d'.withOutput path)) :
    GoesAlike path d (do return .inl (← shown)) (do return .inl (← kept)) := by
  cases shown with
  | error e => exact goesAlike_error path d e _
  | ok d' =>
    refine goesAlike_ok path d ?_
    intro hnone
    obtain ⟨hd, hkept⟩ := h d' rfl hnone
    rw [hkept]
    exact ⟨hd, rfl⟩

private theorem goesAlike_setValue (option : ValueOption) (text : String) :
    GoesAlike path d (do return .inl (← d.setValue option text))
      (do return .inl (← (d.withOutput path).setValue option text)) := by
  apply goesAlike_settings
  fun_cases Draft.setValue d option text with
  | case1 hgiven =>
    intro d' h
    cases h
  | case2 hgiven stage hstage =>
    rintro d' ⟨⟩ hnone
    exact ⟨hnone, by simp [Draft.setValue, Draft.withOutput, hgiven, hstage]⟩
  | case3 hgiven reason hstage =>
    intro d' h
    cases h
  | case4 hgiven =>
    intro d' h
    cases h
  | case5 hgiven format hformat =>
    rintro d' ⟨⟩ hnone
    exact ⟨hnone, by simp [Draft.setValue, Draft.withOutput, hgiven, hformat]⟩
  | case6 hgiven reason hformat =>
    intro d' h
    cases h
  | case7 hgiven =>
    intro d' h
    cases h
  | case8 hgiven hempty =>
    intro d' h
    cases h
  | case9 hgiven hempty =>
    -- the output is no longer unset
    rintro d' ⟨⟩ hnone
    cases hnone

private theorem goesAlike_setInput (text : String) :
    GoesAlike path d (do return .inl (← d.setInput text))
      (do return .inl (← (d.withOutput path).setInput text)) := by
  apply goesAlike_settings
  fun_cases Draft.setInput d text with
  | case1 hgiven =>
    intro d' h
    cases h
  | case2 hgiven hempty =>
    intro d' h
    cases h
  | case3 hgiven hempty =>
    rintro d' ⟨⟩ hnone
    exact ⟨hnone, by simp [Draft.setInput, Draft.withOutput, hgiven, hempty]⟩

private theorem setFlag_withOutput {d' : Draft} {flag : Flag} (h : d.setFlag flag = .ok d') :
    d'.output = d.output ∧ (d.withOutput path).setFlag flag = .ok (d'.withOutput path) := by
  revert h
  fun_cases Draft.setFlag d flag with
  | case1 hgiven =>
    intro h
    cases h
  | case2 hgiven =>
    rintro ⟨⟩
    have hkept : ¬ (d.withOutput path).flags.contains flag := hgiven
    exact ⟨rfl, by rw [Draft.setFlag, if_neg hkept]; rfl⟩

private theorem goesAlike_setFlag (flag : Flag) :
    GoesAlike path d (do return .inl (← d.setFlag flag))
      (do return .inl (← (d.withOutput path).setFlag flag)) := by
  apply goesAlike_settings
  intro d' h hnone
  obtain ⟨houtput, hkept⟩ := setFlag_withOutput path d h
  exact ⟨houtput ▸ hnone, hkept⟩

private theorem goesAlike_takeWord (word : String) (value : Option String) :
    GoesAlike path d (d.takeWord word value) ((d.withOutput path).takeWord word value) := by
  fun_cases Draft.takeWord d word value with
  | case1 value hword => exact goesAlike_error path d _ _
  | case2 option text hword =>
    simp only [Draft.takeWord, hword]
    exact goesAlike_setValue path d option text
  | case3 option hword =>
    simp only [Draft.takeWord, hword]
    exact goesAlike_kept path d rfl
  | case4 flag hword =>
    simp only [Draft.takeWord, hword]
    exact goesAlike_setFlag path d flag
  | case5 hword => exact goesAlike_answer path d (by simp) _
  | case6 hword => exact goesAlike_answer path d (by simp) _
  | case7 name value hname hword => exact goesAlike_error path d _ _

private theorem goesAlike_takeLetters (letters : List Char) :
    GoesAlike path d (d.takeLetters letters) ((d.withOutput path).takeLetters letters) := by
  fun_induction Draft.takeLetters d letters with
  | case1 d => exact goesAlike_kept path d rfl
  | case2 d letter rest hletter => exact goesAlike_error path d _ _
  | case3 d letter option hletter =>
    simp only [Draft.takeLetters, hletter]
    exact goesAlike_kept path d rfl
  | case4 d letter option hletter text =>
    simp only [Draft.takeLetters, hletter]
    exact goesAlike_setValue path d option (.ofList text)
  | case5 d letter option hletter text hempty hequals =>
    simp only [Draft.takeLetters, hletter]
    exact goesAlike_setValue path d option (.ofList text)
  | case6 d letter rest flag hletter d₁ hflag ih =>
    obtain ⟨houtput, hkept⟩ := setFlag_withOutput path d hflag
    simp only [Draft.takeLetters, hletter, hkept]
    refine ⟨?_, ih.request⟩
    intro d' hd' hnone
    rw [← houtput]
    exact ih.settings d' hd' hnone
  | case7 d letter rest flag hletter e hflag => exact goesAlike_error path d _ _
  | case8 d letter rest hletter => exact goesAlike_answer path d (by simp) _
  | case9 d letter rest hletter => exact goesAlike_answer path d (by simp) _

theorem goesAlike_take (arg : String) : GoesAlike path d (d.take arg) ((d.withOutput path).take arg) := by
  fun_cases Draft.take d arg with
  | case1 hliteral =>
    simp only [Draft.take, hliteral, Draft.withOutput_literal, if_true]
    exact goesAlike_setInput path d arg
  | case2 hliteral option second rest harg hpending => exact goesAlike_error path d _ _
  | case3 hliteral option hpending harg =>
    simp only [Draft.take, hliteral, Draft.withOutput_literal, Draft.withOutput_pending, hpending, Bool.false_eq_true,
      if_false]
    exact goesAlike_setValue path d option arg
  | case4 hliteral harg hpending =>
    simp only [Draft.take, hliteral, Draft.withOutput_literal, Draft.withOutput_pending, hpending, harg,
      Bool.false_eq_true, if_false]
    exact goesAlike_kept path d rfl
  | case5 hliteral text htext harg hpending word hvalue =>
    simp only [Draft.take, hliteral, Draft.withOutput_literal, Draft.withOutput_pending, hpending, harg, hvalue,
      Bool.false_eq_true, if_false]
    exact goesAlike_takeWord path d word none
  | case6 hliteral text htext harg hpending word equals value hvalue =>
    simp only [Draft.take, hliteral, Draft.withOutput_literal, Draft.withOutput_pending, hpending, harg, hvalue,
      Bool.false_eq_true, if_false]
    exact goesAlike_takeWord path d word (some (.ofList value))
  | case7 hliteral letter rest hends hletter harg hpending =>
    simp only [Draft.take, hliteral, Draft.withOutput_literal, Draft.withOutput_pending, hpending, harg,
      Bool.false_eq_true, if_false]
    exact goesAlike_takeLetters path d (letter :: rest)
  | case8 hliteral hpending hends hword hletters =>
    simp only [Draft.take, hliteral, Draft.withOutput_literal, Draft.withOutput_pending, hpending,
      Bool.false_eq_true, if_false]
    exact goesAlike_setInput path d arg

end Alike

/-! ### All arguments -/

/-- Arguments that ask for a run without an output ask for the same run with one. -/
theorem Draft.read_withOutput {d : Draft} {args : List String} {options : Options}
    (h : d.read args = .ok (.run options)) (hnone : options.output = none) (path : String) :
    d.output = none ∧ (d.withOutput path).read args = .ok (.run { options with output := some path }) := by
  induction args generalizing d with
  | nil =>
    rw [read] at h
    revert h
    fun_cases finish d with
    | case1 option hpending =>
      intro h
      cases h
    | case2 hpending hinput =>
      intro h
      cases h
    | case3 input hinput hpending =>
      rintro ⟨⟩
      exact ⟨hnone, by simp [read, finish, withOutput, hpending, hinput]⟩
  | cons arg rest ih =>
    rw [read] at h
    have halike := goesAlike_take path d arg
    cases htake : d.take arg with
    | error e =>
      rw [htake] at h
      cases h
    | ok progress =>
      rw [htake] at h halike
      cases progress with
      | inr request =>
        cases h
        exact absurd rfl (halike.request options)
      | inl d' =>
        obtain ⟨hd', hrest⟩ := ih h
        obtain ⟨hd, hkept⟩ := halike.settings d' rfl hd'
        refine ⟨hd, ?_⟩
        rw [read, hkept]
        exact hrest

/-- The settings behind some arguments, if these only make settings. -/
def Draft.takeAll? (d : Draft) : List String → Option Draft
  | [] => some d
  | arg :: rest =>
    match d.take arg with
    | .ok (.inl d) => d.takeAll? rest
    | _ => none

private theorem Draft.read_append {d d' : Draft} {before : List String} (h : d.takeAll? before = some d')
    (after : List String) : d.read (before ++ after) = d'.read after := by
  induction before generalizing d with
  | nil =>
    cases h
    rfl
  | cons arg before ih =>
    rw [takeAll?] at h
    rw [List.cons_append, read]
    split at h
    · rename_i d₁ htake
      rw [htake]
      exact ih h
    · cases h

/-- Whether an argument is taken for an option: it is more than a sign. -/
def LooksLikeOption (arg : String) : Prop := ∃ c rest, arg.toList = '-' :: c :: rest

/-- The spellings of the option that sets the output. -/
inductive OutputArgs (path : String) : List String → Prop
  | short (h : ¬ LooksLikeOption path) : OutputArgs path ["-o", path]
  | long (h : ¬ LooksLikeOption path) : OutputArgs path ["--output", path]
  | joined (h : path.toList.head? ≠ some '=') : OutputArgs path ["-o" ++ path]
  | shortEquals : OutputArgs path ["-o=" ++ path]
  | longEquals : OutputArgs path ["--output=" ++ path]

private theorem Draft.setValue_output {d : Draft} (hpending : d.pending = none) (houtput : d.output = none)
    {path : String} (hpath : path ≠ "") : d.setValue .output path = .ok (d.withOutput path) := by
  obtain ⟨input, stage, format, output, flags, pending, literal⟩ := d
  cases hpending
  cases houtput
  simp [setValue, withOutput, hpath]

section Option

variable {d : Draft} (hpending : d.pending = none) (hliteral : d.literal = false)
include hpending hliteral

private theorem Draft.take_letters {arg : String} {letter : Char} {rest : List Char} (hletter : letter ≠ '-')
    (harg : arg.toList = '-' :: letter :: rest) : d.take arg = d.takeLetters (letter :: rest) := by
  simp [take, hpending, hliteral, harg, hletter]

private theorem Draft.take_word {arg : String} {word : List Char} (hword : word ≠ []) (hequals : '=' ∉ word)
    (harg : arg.toList = '-' :: '-' :: word) : d.take arg = d.takeWord (.ofList word) none := by
  have hall : ∀ c ∈ word, (!decide (c = '=')) = true := by
    intro c hc
    simpa using ne_of_mem_of_not_mem hc hequals
  simp [take, hpending, hliteral, harg, List.takeWhile_eq_self_iff.2 hall, List.dropWhile_eq_nil_iff.2 hall]

private theorem Draft.take_wordValue {arg : String} {word value : List Char} (hequals : '=' ∉ word)
    (harg : arg.toList = '-' :: '-' :: (word ++ '=' :: value)) :
    d.take arg = d.takeWord (.ofList word) (some (.ofList value)) := by
  have hall : ∀ c ∈ word, (!decide (c = '=')) = true := by
    intro c hc
    simpa using ne_of_mem_of_not_mem hc hequals
  simp [take, hpending, hliteral, harg, List.takeWhile_append_of_pos hall, List.dropWhile_append_of_pos hall]

/-- A value that is waited for is taken from the next argument. -/
private theorem Draft.take_value {path : String} (hpath : path ≠ "") (houtput : d.output = none)
    (hplain : ¬ LooksLikeOption path) :
    ({ d with pending := some .output } : Draft).take path = .ok (.inl (d.withOutput path)) := by
  have harg : ∀ c rest, path.toList = '-' :: c :: rest → False := fun c rest heq => hplain ⟨c, rest, heq⟩
  have hset : ({ d with pending := some .output } : Draft).setValue .output path = .ok (d.withOutput path) := by
    rw [← setValue_output hpending houtput hpath]
    rfl
  rw [hliteral] at hset
  simp only [take, hliteral, Bool.false_eq_true, if_false, hset]
  rfl

/-- The option sets the output where an option may stand. -/
theorem OutputArgs.takeAll_eq {path : String} {args : List String} (h : OutputArgs path args) (hpath : path ≠ "")
    (houtput : d.output = none) : d.takeAll? args = some (d.withOutput path) := by
  have hset := Draft.setValue_output hpending houtput hpath
  have hone : ∀ {arg}, d.take arg = (do return .inl (← d.setValue .output path)) →
      d.takeAll? [arg] = some (d.withOutput path) := by
    intro arg htake
    rw [Draft.takeAll?, htake, hset]
    rfl
  have htwo : ∀ {arg}, d.take arg = .ok (.inl { d with pending := some .output }) → ¬ LooksLikeOption path →
      d.takeAll? [arg, path] = some (d.withOutput path) := by
    intro arg htake hplain
    rw [Draft.takeAll?, htake]
    dsimp only
    rw [Draft.takeAll?, Draft.take_value hpending hliteral hpath houtput hplain]
    rfl
  cases h with
  | short hplain =>
    refine htwo ?_ hplain
    rw [Draft.take_letters hpending hliteral (by decide) rfl]
    rfl
  | long hplain =>
    refine htwo ?_ hplain
    rw [Draft.take_word hpending hliteral (by decide) (by decide) rfl]
    rfl
  | joined hequals =>
    apply hone
    have hletters : ("-o" ++ path).toList = '-' :: 'o' :: path.toList := String.toList_append ..
    have hvalue : d.takeLetters ('o' :: path.toList) =
        (do return .inl (← d.setValue .output (.ofList path.toList))) := by
      have hne : path.toList ≠ [] := by simpa using hpath
      obtain ⟨c, more, hmore⟩ := List.exists_cons_of_ne_nil hne
      have hc : c ≠ '=' := by simpa [hmore] using hequals
      simp [hmore, Draft.takeLetters, OptionName.ofLetter?, hc]
    rw [Draft.take_letters hpending hliteral (by decide) hletters, hvalue, String.ofList_toList]
  | shortEquals =>
    apply hone
    have hletters : ("-o=" ++ path).toList = '-' :: 'o' :: '=' :: path.toList := String.toList_append ..
    have hvalue : d.takeLetters ('o' :: '=' :: path.toList) =
        (do return .inl (← d.setValue .output (.ofList path.toList))) := rfl
    rw [Draft.take_letters hpending hliteral (by decide) hletters, hvalue, String.ofList_toList]
  | longEquals =>
    apply hone
    have htext : ("--output=" ++ path).toList = '-' :: '-' :: ("output".toList ++ '=' :: path.toList) :=
      String.toList_append ..
    rw [Draft.take_wordValue hpending hliteral (by decide) htext, String.ofList_toList, String.ofList_toList]
    rfl

end Option

/-- Settings behind which another option may stand: none waits for its value, and the options have not been ended. -/
def TakesOptions (before : List String) : Prop :=
  ∃ d, Draft.takeAll? {} before = some d ∧ d.pending = none ∧ d.literal = false

/-- Arguments that ask for a run without an output ask for the same run with one when the option is put between
them. -/
theorem ofArgs_insert {before added after : List String} {options : Options}
    (h : Request.ofArgs (before ++ after) = .ok (.run options)) (hnone : options.output = none)
    (hbefore : TakesOptions before) {path : String} (hadded : OutputArgs path added) (hpath : path ≠ "") :
    Request.ofArgs (before ++ added ++ after) = .ok (.run { options with output := some path }) := by
  obtain ⟨d, hd, hpending, hliteral⟩ := hbefore
  rw [Request.ofArgs, Draft.read_append hd] at h
  obtain ⟨houtput, hread⟩ := Draft.read_withOutput h hnone path
  rw [Request.ofArgs, List.append_assoc, Draft.read_append hd,
    Draft.read_append (hadded.takeAll_eq hpending hliteral hpath houtput)]
  exact hread

end ThreeAddress
