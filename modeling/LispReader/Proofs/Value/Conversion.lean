import LispReader.Proofs.Decimal.Written
import LispReader.Proofs.Json.Flat
import LispReader.Proofs.Value.Describe
import LispReader.Value.Conversion

/-!
Conversion between values and tokens, both ways. On numbers, texts and lists of them that are not
empty, each way undoes the other. Truth values, and lists that are empty, are left out on both
sides: no token stands for a truth value, and the empty list stands for one.

A conversion fails over something that it comes to, and it comes to the items of lists only. What it
comes to is `Reaches`, on either side. It blames the type of that thing, unless it is a tuple that
cannot be shown for a whole number in it.
-/

namespace LispReader

open Json (mapM_cons_eq_error_iff exists_of_mapM_eq_error mapM_eq_ok_iff_forall₂)

section

variable {α β ε : Type} {items : List α} {f : α → Except ε β}

/-- A traversal fails if it does at some item, although perhaps over another one. -/
theorem exists_mapM_eq_error {item : α} (hItem : item ∈ items)
    (hError : ∃ fault, f item = .error fault) : ∃ fault, items.mapM f = .error fault := by
  induction items with
  | nil => cases hItem
  | cons first rest ih =>
      simp only [mapM_cons_eq_error_iff]
      rcases List.mem_cons.mp hItem with rfl | hRest
      · obtain ⟨fault, hFault⟩ := hError
        exact ⟨fault, .inl hFault⟩
      · obtain ⟨fault, hFault⟩ := ih hRest
        cases hFirst : f first with
        | error other => exact ⟨other, .inl rfl⟩
        | ok b => exact ⟨fault, .inr ⟨⟨b, rfl⟩, hFault⟩⟩

/-- Where every item has a result that leads back to it, so has the whole list. -/
theorem exists_mapM_inverse {g : β → Except ε α} {η : Type} {f : α → Except η β}
    (hItems : ∀ item ∈ items, ∃ b, f item = .ok b ∧ g b = .ok item) :
    ∃ results, items.mapM f = .ok results ∧ results.mapM g = .ok items := by
  induction items with
  | nil => exact ⟨[], rfl, rfl⟩
  | cons item rest ih =>
      obtain ⟨hItem, hRest⟩ := List.forall_mem_cons.mp hItems
      obtain ⟨b, hTo, hBack⟩ := hItem
      obtain ⟨results, hAll, hAllBack⟩ := ih hRest
      refine ⟨b :: results, ?_, ?_⟩
      · rw [List.mapM_cons, hTo, hAll]
        rfl
      · rw [List.mapM_cons, hBack, hAllBack]
        rfl

end

namespace Token

@[simp]
theorem isProperList_properList {α : Type} (items : List (Token α)) :
    (properList items).isProperList = true :=
  isProperList_chain items .emptyList

@[simp]
theorem heads_properList {α : Type} (items : List (Token α)) :
    (properList items).heads = items := by
  simp [properList, heads]

theorem sizeOf_lt_of_mem_heads {form item : Form} (h : item ∈ form.heads) :
    sizeOf item < sizeOf form := by
  induction form with
  | cons head tail _ ih =>
      rcases List.mem_cons.mp h with rfl | hTail
      · simp +arith
      · have hLess := ih hTail
        simp +arith
        omega
  | _ => cases h

/-- What passes from the items along a chain to the chain holds of all forms. -/
@[elab_as_elim]
theorem heads_induction {motive : Form → Prop}
    (step : ∀ form : Form, (∀ item ∈ form.heads, motive item) → motive form) (form : Form) :
    motive form :=
  step form fun item hItem =>
    have := sizeOf_lt_of_mem_heads hItem
    heads_induction step item
termination_by sizeOf form

/-! From tokens to values. -/

/-- The values along a chain are those of its items. -/
theorem settingValues_eq (form : Form) : form.settingValues = form.heads.mapM settingValue := by
  induction form with
  | cons head tail _ ih => rw [settingValues, heads, List.mapM_cons, ih]
  | _ => rfl

/-- A proper list with items has the list of their values. -/
theorem settingValue_of_isProperList {form : Form} (hProper : form.isProperList = true)
    (hSome : form.heads ≠ []) :
    form.settingValue = Value.list <$> form.heads.mapM settingValue := by
  cases form with
  | cons head tail =>
      have hTail : tail.isProperList = true := hProper
      rw [settingValue, if_pos hTail, settingValues_eq, heads, List.mapM_cons]
      simp only [map_bind, map_pure]
  | _ => exact absurd rfl hSome

/-- Numbers and texts, and lists of such forms that are not empty. -/
inductive IsPlain : Form → Prop
  | integer (n : Int) : IsPlain (.integer (.int n))
  | float (x : Float) : IsPlain (.float (.float x))
  | string (text : String) : IsPlain (.string (.text text))
  | list {items : List Form} (hSome : items ≠ []) (hItems : ∀ item ∈ items, IsPlain item) :
      IsPlain (.properList items)

/-- What the conversion of a form comes to: the form, and whatever the items of a proper list come
to. It does not look into other chains. -/
inductive Reaches : Form → Form → Prop
  | refl (form : Form) : Reaches form form
  | item {form item inner : Form} (hProper : form.isProperList = true) (hItem : item ∈ form.heads)
      (hInner : Reaches item inner) : Reaches form inner

/-- A form that has no value whatever it consists of. -/
inductive HasNoSetting : Form → Prop
  | rational (numerator denominator : Value) : HasNoSetting (.rational numerator denominator)
  | structural {form : Form} (hStructural : form.isStructural = true) : HasNoSetting form
  | improper {head tail : Form} (hImproper : (Token.cons head tail).isProperList = false) :
      HasNoSetting (.cons head tail)

theorem HasNoSetting.settingValue_eq {form : Form} (h : form.HasNoSetting) :
    form.settingValue = .error ⟨.token form⟩ := by
  cases h with
  | rational => rfl
  | structural hStructural =>
      cases form with
      | listStart | listEnd | dot | comment | quotePrefix => rfl
      | _ => cases hStructural
  | @improper head tail hImproper =>
      have hTail : ¬ tail.isProperList = true := by simpa [isProperList] using hImproper
      rw [settingValue, if_neg hTail]

theorem exists_settingValue_of_kind_ne {form : Form} (hKind : form.kind ≠ .cons)
    (hSetting : ¬ form.HasNoSetting) : ∃ value, form.settingValue = .ok value := by
  cases form with
  | cons => exact absurd rfl hKind
  | rational => exact absurd (.rational _ _) hSetting
  | listStart | listEnd | dot | comment | quotePrefix => exact absurd (.structural rfl) hSetting
  | symbol name =>
      by_cases hTrue : name = .text "t"
      · rw [hTrue]
        exact ⟨_, rfl⟩
      · rw [settingValue]
        · exact ⟨_, rfl⟩
        · exact hTrue
  | _ => exact ⟨_, rfl⟩

/-- A conversion fails over a form that it has come to. -/
theorem exists_reaches_of_settingValue {form : Form} {fault : SettingFault}
    (h : form.settingValue = .error fault) :
    ∃ inner, form.Reaches inner ∧ inner.HasNoSetting ∧ fault = ⟨.token inner⟩ := by
  induction form using heads_induction generalizing fault with
  | step form ih =>
      by_cases hSetting : form.HasNoSetting
      · rw [hSetting.settingValue_eq, Except.error.injEq] at h
        exact ⟨form, .refl form, hSetting, h.symm⟩
      cases form with
      | cons head tail =>
          have hProper : (Token.cons head tail).isProperList = true := by
            apply Bool.of_not_eq_false
            intro hImproper
            exact hSetting (.improper hImproper)
          rw [settingValue_of_isProperList hProper (List.cons_ne_nil _ _)] at h
          cases hItems : (Token.cons head tail).heads.mapM settingValue with
          | ok values =>
              rw [hItems] at h
              cases h
          | error other =>
              rw [hItems] at h
              cases h
              obtain ⟨item, hItem, hFault⟩ := exists_of_mapM_eq_error hItems
              obtain ⟨inner, hInner, hNo, rfl⟩ := ih item hItem hFault
              exact ⟨inner, .item hProper hItem hInner, hNo, rfl⟩
      | _ =>
          obtain ⟨value, hValue⟩ := exists_settingValue_of_kind_ne (by simp [kind]) hSetting
          rw [hValue] at h
          cases h

theorem Reaches.exists_settingValue_eq_error {form inner : Form} (h : form.Reaches inner)
    (hNo : inner.HasNoSetting) : ∃ fault, form.settingValue = .error fault := by
  induction h with
  | refl form => exact ⟨_, hNo.settingValue_eq⟩
  | item hProper hItem _ ih =>
      obtain ⟨fault, hFault⟩ := exists_mapM_eq_error hItem (ih hNo)
      refine ⟨fault, ?_⟩
      rw [settingValue_of_isProperList hProper (List.ne_nil_of_mem hItem), hFault]
      rfl

end Token

namespace Value

/-! From values to tokens. -/

theorem toTokens_eq (items : List Value) : toTokens items = items.mapM toToken := by
  induction items with
  | nil => rfl
  | cons item rest ih => rw [toTokens, List.mapM_cons, ih]

theorem toToken_list (items : List Value) :
    toToken (.list items) = Token.properList <$> items.mapM toToken := by
  rw [toToken, toTokens_eq]

/-- Numbers and texts, and lists of such values that are not empty. -/
inductive IsPlain : Value → Prop
  | int (n : Int) : IsPlain (.int n)
  | float (x : Float) : IsPlain (.float x)
  | text (text : String) : IsPlain (.text text)
  | list {items : List Value} (hSome : items ≠ []) (hItems : ∀ item ∈ items, IsPlain item) :
      IsPlain (.list items)

/-- What the conversion of a value comes to: the value, and whatever the items of a list come to. -/
inductive Reaches : Value → Value → Prop
  | refl (value : Value) : Reaches value value
  | item {items : List Value} {item inner : Value} (hItem : item ∈ items)
      (hInner : Reaches item inner) : Reaches (.list items) inner

/-- A value that no token stands for, and why. -/
inductive HasNoToken : Value → ConversionFault → Prop
  | bool (value : Bool) : HasNoToken (.bool value) (.type "bool")
  | tuple {items : List Value} {shown : String}
      (hPair : ∀ numerator denominator, items ≠ [.int numerator, .int denominator])
      (hShown : (Value.tuple items).describe? = some shown) :
      HasNoToken (.tuple items) (.tuple shown)
  | tooLong {items : List Value}
      (hPair : ∀ numerator denominator, items ≠ [.int numerator, .int denominator])
      (hLong : HoldsTooLong (Value.tuple items).numbers) : HasNoToken (.tuple items) .tooLong
  | dict (entries : List (String × Value)) : HasNoToken (.dict entries) (.type "dict")
  | mapping (entries : List (Value × Value)) : HasNoToken (.mapping entries) (.type "dict")
  | bytes (value : List UInt8) : HasNoToken (.bytes value) (.type "bytes")
  | object : HasNoToken .object (.type "object")

theorem toToken_tuple {items : List Value}
    (hPair : ∀ numerator denominator, items ≠ [.int numerator, .int denominator]) :
    toToken (.tuple items) = .error (.ofTuple items) := by
  rw [toToken]
  intro numerator denominator hItems
  exact hPair numerator denominator hItems

theorem HasNoToken.toToken_eq {value : Value} {fault : ConversionFault}
    (h : value.HasNoToken fault) : value.toToken = .error fault := by
  cases h with
  | tuple hPair hShown => rw [toToken_tuple hPair, ConversionFault.ofTuple, hShown]
  | tooLong hPair hLong =>
      rw [toToken_tuple hPair, ConversionFault.ofTuple, (describe?_eq_none_iff _).mpr hLong]
  | _ => rfl

/-- A tuple that is no ratio has one of the two faults of a tuple. -/
theorem exists_hasNoToken_tuple {items : List Value}
    (hPair : ∀ numerator denominator, items ≠ [.int numerator, .int denominator]) :
    ∃ fault, HasNoToken (.tuple items) fault := by
  cases hShown : (Value.tuple items).describe? with
  | some shown => exact ⟨_, .tuple hPair hShown⟩
  | none => exact ⟨_, .tooLong hPair ((describe?_eq_none_iff _).mp hShown)⟩

theorem HasNoToken.isOfType_or_tooLong {value : Value} {fault : ConversionFault}
    (h : value.HasNoToken fault) : fault.isOfType = true ∨ fault = .tooLong := by
  cases h <;> simp [ConversionFault.isOfType]

theorem exists_reaches_of_toToken {value : Value} {fault : ConversionFault}
    (h : value.toToken = .error fault) :
    ∃ inner, value.Reaches inner ∧ inner.HasNoToken fault := by
  cases value with
  | list items =>
      rw [toToken_list] at h
      cases hItems : items.mapM toToken with
      | ok forms =>
          rw [hItems] at h
          cases h
      | error other =>
          rw [hItems] at h
          cases h
          obtain ⟨item, hItem, hFault⟩ := exists_of_mapM_eq_error hItems
          have := List.sizeOf_lt_of_mem hItem
          obtain ⟨inner, hInner, hNo⟩ := exists_reaches_of_toToken hFault
          exact ⟨inner, .item hItem hInner, hNo⟩
  | tuple items =>
      by_cases hPair : ∃ numerator denominator, items = [.int numerator, .int denominator]
      · obtain ⟨numerator, denominator, rfl⟩ := hPair
        cases h
      · obtain ⟨other, hNo⟩ : ∃ fault, HasNoToken (.tuple items) fault := by
          apply exists_hasNoToken_tuple
          intro numerator denominator hItems
          exact hPair ⟨numerator, denominator, hItems⟩
        rw [hNo.toToken_eq, Except.error.injEq] at h
        subst h
        exact ⟨_, .refl _, hNo⟩
  | bool | dict | mapping | bytes | object =>
      cases h
      exact ⟨_, .refl _, by constructor⟩
  | null | int | float | text | token => cases h

theorem Reaches.exists_toToken_eq_error {value inner : Value} (h : value.Reaches inner)
    (hNo : ∃ fault, inner.HasNoToken fault) : ∃ fault, value.toToken = .error fault := by
  induction h with
  | refl value =>
      obtain ⟨fault, hFault⟩ := hNo
      exact ⟨fault, hFault.toToken_eq⟩
  | item hItem _ ih =>
      obtain ⟨fault, hFault⟩ := exists_mapM_eq_error hItem (ih hNo)
      refine ⟨fault, ?_⟩
      rw [toToken_list, hFault]
      rfl

/-- A value of this kind is the setting that its token stands for. -/
theorem IsPlain.exists_token {value : Value} (h : value.IsPlain) :
    ∃ form, value.toToken = .ok form ∧ form.settingValue = .ok value := by
  induction h with
  | int n => exact ⟨.integer (.int n), rfl, rfl⟩
  | float x => exact ⟨.float (.float x), rfl, rfl⟩
  | text text => exact ⟨.string (.text text), rfl, rfl⟩
  | @list items hSome _ ih =>
      obtain ⟨forms, hForms, hBack⟩ := exists_mapM_inverse ih
      have hNotEmpty : forms ≠ [] := by
        rintro rfl
        cases hBack
        exact hSome rfl
      refine ⟨.properList forms, ?_, ?_⟩
      · rw [toToken_list, hForms]
        rfl
      · rw [Token.settingValue_of_isProperList (Token.isProperList_properList forms)
          (by rwa [Token.heads_properList]), Token.heads_properList, hBack]
        rfl

end Value

/-- A form of this kind is the token that stands for its value. -/
theorem Token.IsPlain.exists_setting {form : Form} (h : form.IsPlain) :
    ∃ value, form.settingValue = .ok value ∧ value.toToken = .ok form := by
  induction h with
  | integer n => exact ⟨.int n, rfl, rfl⟩
  | float x => exact ⟨.float x, rfl, rfl⟩
  | string text => exact ⟨.text text, rfl, rfl⟩
  | @list items hSome _ ih =>
      obtain ⟨values, hValues, hBack⟩ := exists_mapM_inverse ih
      refine ⟨.list values, ?_, ?_⟩
      · rw [settingValue_of_isProperList (isProperList_properList items)
          (by rwa [heads_properList]), heads_properList, hValues]
        rfl
      · rw [Value.toToken_list, hBack]
        rfl

/-- On numbers, texts and lists of them that are not empty, the two conversions are inverse to each
other. A form has no value just if the conversion comes to a ratio, to a structural token or to a
chain that is no proper list. No token stands for a value just if the conversion comes to something
that none stands for, and the fault is that of such a thing; so it blames a type, if the conversion
comes to no tuple that cannot be shown. -/
theorem conversions_inverse (form : Form) (value : Value) :
    (form.IsPlain → ∃ found, form.settingValue = .ok found ∧ found.toToken = .ok form) ∧
    (value.IsPlain → ∃ found, value.toToken = .ok found ∧ found.settingValue = .ok value) ∧
    ((∃ fault, form.settingValue = .error fault) ↔
      ∃ inner, form.Reaches inner ∧ inner.HasNoSetting) ∧
    ((∃ fault, value.toToken = .error fault) ↔
      ∃ inner fault, value.Reaches inner ∧ inner.HasNoToken fault) ∧
    (∀ fault, value.toToken = .error fault →
      ∃ inner, value.Reaches inner ∧ inner.HasNoToken fault) ∧
    ((∀ inner, value.Reaches inner → ¬inner.HasNoToken .tooLong) →
      ((∃ fault, value.toToken = .error fault ∧ fault.isOfType = true) ↔
        ∃ inner fault, value.Reaches inner ∧ inner.HasNoToken fault)) := by
  refine ⟨fun h => h.exists_setting, fun h => h.exists_token, ⟨?_, ?_⟩, ⟨?_, ?_⟩,
    fun fault h => Value.exists_reaches_of_toToken h, fun hShown => ⟨?_, ?_⟩⟩
  · rintro ⟨fault, hFault⟩
    obtain ⟨inner, hInner, hNo, -⟩ := Token.exists_reaches_of_settingValue hFault
    exact ⟨inner, hInner, hNo⟩
  · rintro ⟨inner, hInner, hNo⟩
    exact hInner.exists_settingValue_eq_error hNo
  · rintro ⟨fault, hFault⟩
    obtain ⟨inner, hInner, hNo⟩ := Value.exists_reaches_of_toToken hFault
    exact ⟨inner, fault, hInner, hNo⟩
  · rintro ⟨inner, fault, hInner, hNo⟩
    exact hInner.exists_toToken_eq_error ⟨fault, hNo⟩
  · rintro ⟨fault, hFault, -⟩
    obtain ⟨inner, hInner, hNo⟩ := Value.exists_reaches_of_toToken hFault
    exact ⟨inner, fault, hInner, hNo⟩
  · rintro ⟨inner, fault, hInner, hNo⟩
    obtain ⟨other, hOther⟩ := hInner.exists_toToken_eq_error ⟨fault, hNo⟩
    obtain ⟨outer, hOuter, hRefused⟩ := Value.exists_reaches_of_toToken hOther
    refine ⟨other, hOther, hRefused.isOfType_or_tooLong.resolve_right ?_⟩
    rintro rfl
    exact hShown outer hOuter hRefused

/-- A tuple that is no ratio need not be refused for its type: if it holds a whole number that is
too long, it cannot be shown. -/
theorem toToken_of_long_tuple :
    let value : Value := .tuple [.int (10 ^ Decimal.digitLimit)]
    value.toToken = .error .tooLong ∧ ConversionFault.isOfType .tooLong = false := by
  refine ⟨Value.HasNoToken.toToken_eq (.tooLong (by simp) ?_), rfl⟩
  exact ⟨_, List.mem_singleton_self _, Decimal.not_isShort_ten_pow⟩

/-- The list of a number and of the list of a double and a text, both ways; and a list of which one
item is a dotted pair of a ratio and a mark, which is not looked into. -/
theorem conversions_inverse_of_nested_list :
    let inner : Form := .properList [.float (.float (-0.0)), .string (.text "t")]
    let form : Form := .properList [.integer (.int (-5)), inner]
    let value : Value := .list [.int (-5), .list [.float (-0.0), .text "t"]]
    let pair : Form := .cons (.rational (.int 1) (.int 2)) .dot
    form.IsPlain ∧ value.IsPlain ∧
      (∃ found, form.settingValue = .ok found ∧ found.toToken = .ok form) ∧
      (∃ found, value.toToken = .ok found ∧ found.settingValue = .ok value) ∧
      ∃ fault, (Token.properList [.nil, pair]).settingValue = .error fault := by
  intro inner form value pair
  have hInner : inner.IsPlain := by
    apply Token.IsPlain.list (List.cons_ne_nil _ _)
    simpa using ⟨.float _, .string _⟩
  have hForm : form.IsPlain := by
    apply Token.IsPlain.list (List.cons_ne_nil _ _)
    simpa using ⟨.integer _, hInner⟩
  have hItems : (Value.list [.float (-0.0), .text "t"]).IsPlain := by
    apply Value.IsPlain.list (List.cons_ne_nil _ _)
    simpa using ⟨.float _, .text _⟩
  have hValue : value.IsPlain := by
    apply Value.IsPlain.list (List.cons_ne_nil _ _)
    simpa using ⟨.int _, hItems⟩
  have hReaches : Token.Reaches (.properList [.nil, pair]) pair :=
    .item rfl (by simp [Token.heads_properList]) (.refl pair)
  obtain ⟨hSetting, hToken, -⟩ := conversions_inverse form value
  obtain ⟨-, -, hNoSetting, -⟩ := conversions_inverse (.properList [.nil, pair]) value
  exact ⟨hForm, hValue, hSetting hForm, hToken hValue,
    hNoSetting.mpr ⟨pair, hReaches, .improper rfl⟩⟩

end LispReader
