/-
  AccountSync.Proofs.Lookup.Brands
  ────────────────────────────────
  **A LOCALE IS RESOLVED WITHIN ITS BRAND, UNLESS A SLASH IS IN THE WAY.**

  Settings are looked up by their brand and their locale, joined to one text with a slash
  between them.  The text tells the two apart only if it is known how many slashes belong to
  the brand: settings of brand `a/b` for locale `c` are also found for the locale `b/c` of
  brand `a`.

      Locales.joined_inj_iff       — when the joined text determines brand and locale
      Locales.listed?_eq_iff       — when the settings that are found are the right ones
      Locales.ResolvedBy           — an instance before and after one rule
      locales_within_brand_iff     — the filter of locales when elements are fetched
-/
import AccountSync.Proofs.Lookup.Locales
import AccountSync.Proofs.Text.Separator

namespace AccountSync

open List (Forall₂)

variable {ω : Type}

/-! ## §1. Brands and locales. -/

/-- Of what satisfies a weaker condition the first also is the first that satisfies a stronger
one exactly if it does so at all. -/
theorem find?_eq_find?_iff {α : Type} {p q : α → Bool} (hqp : ∀ a, q a = true → p a = true)
    (l : List α) : l.find? p = l.find? q ↔ ∀ a ∈ l.find? p, q a = true := by
  induction l with
  | nil => exact iff_of_true rfl nofun
  | cons a rest ih =>
    cases hp : p a with
    | false =>
      have hq : q a = false := Bool.eq_false_iff.mpr fun hq => by simp [hqp a hq] at hp
      rw [List.find?_cons_of_neg (by simp [hp]), List.find?_cons_of_neg (by simp [hq])]
      exact ih
    | true =>
      -- this is the first one for the weaker condition, so it decides
      rw [List.find?_cons_of_pos hp]
      cases hq : q a with
      | true =>
        rw [List.find?_cons_of_pos hq]
        refine iff_of_true rfl fun b hb => ?_
        rwa [← Option.some.inj hb]
      | false =>
        rw [List.find?_cons_of_neg (by simp [hq])]
        refine iff_of_false (fun h => ?_) fun h => ?_
        · simp [List.find?_some h.symm] at hq
        · simp [h a rfl] at hq

namespace Locales

/-- The text that stands for what is in a field. -/
def part? (field : String) (i : Instance) : Option String :=
  (i.get? field).bind keyPart?

/-- The texts that stand for the brand of an instance and for what is in a field. -/
def pair? (rule : LocaleRule) (field : String) (i : Instance) : Option (String × String) :=
  (part? rule.brandField i).bind fun brand => (part? field i).map (brand, ·)

/-- Both in one text. -/
def joined (pair : String × String) : String :=
  pair.1 ++ "/" ++ pair.2

/-- How many slashes there are in the text for the brand. -/
def slashes? (rule : LocaleRule) (i : Instance) : Option Nat :=
  (part? rule.brandField i).map (·.toList.count '/')

theorem fieldKey?_eq (rule : LocaleRule) (field : String) (i : Instance) :
    fieldKey? rule field i = (pair? rule field i).map joined := by
  unfold fieldKey? pair? part?
  cases i.get? rule.brandField with
  | none => rfl
  | some brand =>
    cases i.get? field with
    | none => exact (Option.map_eq_none_iff.mpr (Option.bind_eq_none_iff.mpr fun _ _ => rfl)).symm
    | some locale =>
      show key? brand locale = _
      unfold key?
      show _ = ((keyPart? brand).bind fun brand => (keyPart? locale).map (brand, ·)).map joined
      cases keyPart? brand with
      | none => rfl
      | some _ => cases keyPart? locale <;> rfl

/-- Of texts that are joined to the same one, brand and locale are the same exactly if the brands
have equally many slashes. -/
theorem joined_inj_iff {pair pair' : String × String} (h : joined pair = joined pair') :
    pair = pair' ↔ pair.1.toList.count '/' = pair'.1.toList.count '/' := by
  refine ⟨fun heq => heq ▸ rfl, fun hcount => ?_⟩
  have hlist : pair.1.toList ++ '/' :: pair.2.toList = pair'.1.toList ++ '/' :: pair'.2.toList := by
    have := congrArg String.toList h
    simpa [joined] using this
  obtain ⟨hbrand, hlocale⟩ := Text.cut_inj_of_count_eq hlist hcount
  exact Prod.ext (String.toList_inj.mp hbrand) (String.toList_inj.mp hlocale)

/-! ## §2. Settings. -/

/-- The last settings with a brand and a locale like that. -/
def last? (rule : LocaleRule) (elements : List Element) (like : String × String → Bool) :
    Option Instance :=
  (Element.instancesOf elements rule.settingsType).reverse.find?
    (fun settings => (pair? rule localeField settings).any like)

/-- The last settings with the brand of the instance and the locale in its field. -/
def settings? (rule : LocaleRule) (elements : List Element) (field : String) (i : Instance) :
    Option Instance :=
  (pair? rule field i).bind fun pair => last? rule elements (fun other => other = pair)

/-- The last settings with a brand and a locale that are joined to the same text. -/
def listed? (rule : LocaleRule) (elements : List Element) (field : String) (i : Instance) :
    Option Instance :=
  (pair? rule field i).bind fun pair =>
    last? rule elements (fun other => joined other = joined pair)

variable {rule : LocaleRule} {elements : List Element} {field : String} {i : Instance}

theorem slashes?_of_pair? {pair : String × String} (h : pair? rule field i = some pair) :
    slashes? rule i = some (pair.1.toList.count '/') := by
  obtain ⟨brand, hbrand, hpair⟩ := Option.bind_eq_some_iff.mp h
  obtain ⟨locale, -, rfl⟩ := Option.map_eq_some_iff.mp hpair
  unfold slashes?
  rw [hbrand]
  rfl

/-- Settings with that text have the brand and the locale exactly if their brand has as many
slashes. -/
theorem pair_eq_iff {settings : Instance} {pair other : String × String}
    (hpair : pair? rule field i = some pair) (hother : pair? rule localeField settings = some other)
    (hjoined : joined other = joined pair) :
    other = pair ↔ slashes? rule settings = slashes? rule i := by
  rw [joined_inj_iff hjoined, slashes?_of_pair? hpair, slashes?_of_pair? hother]
  exact Option.some_inj.symm

/-- What is found are the last settings of the brand for the locale exactly if their brand has as
many slashes, or if none are found. -/
theorem listed?_eq_settings?_iff :
    listed? rule elements field i = settings? rule elements field i
      ↔ ∀ settings ∈ listed? rule elements field i, slashes? rule settings = slashes? rule i := by
  unfold listed? settings?
  cases hpair : pair? rule field i with
  | none => exact iff_of_true rfl nofun
  | some pair =>
    rw [Option.bind_some, Option.bind_some]
    unfold last?
    -- the same brand and locale are joined to the same text, but not the other way round
    rw [find?_eq_find?_iff]
    · refine forall₂_congr fun settings hfound => ?_
      have hlike := List.find?_some hfound
      obtain ⟨other, hother, hjoined⟩ := (Option.any_eq_true _ _).mp hlike
      rw [hother, Option.any_some, decide_eq_true_iff]
      exact pair_eq_iff hpair hother (of_decide_eq_true hjoined)
    · intro settings hsame
      obtain ⟨other, hother, heq⟩ := (Option.any_eq_true _ _).mp hsame
      rw [hother, Option.any_some, of_decide_eq_true heq]
      exact decide_eq_true rfl

/-- The field refers to what is found, or it stays as it is. -/
theorem resolveField_eq (rule : LocaleRule) (elements : List Element) (field : String)
    (i : Instance) :
    resolveField rule (table rule elements) field i
      = (listed? rule elements field i).elim i
        (fun settings => i.set field (.reference settings.reference)) := by
  unfold resolveField listed?
  rw [fieldKey?_eq]
  cases pair? rule field i with
  | none => rfl
  | some pair =>
    rw [Option.map_some, Option.bind_some, Option.bind_some]
    unfold table last?
    rw [LookupTable.find?_ofInstances]
    -- the table asks for the text, `last?` for the brand and the locale that it was joined from
    have hlike : (fun settings => decide (fieldKey? rule localeField settings = some (joined pair)))
        = fun settings => (pair? rule localeField settings).any
          (fun other => joined other = joined pair) := by
      funext settings
      rw [fieldKey?_eq]
      cases pair? rule localeField settings with
      | none => rfl
      | some other =>
        rw [Option.map_some, Option.any_some]
        exact decide_eq_decide.mpr Option.some_inj
    rw [hlike]
    cases List.find? _ _ <;> rfl

/-! ## §3. One rule. -/

/-- A field of an instance before and after it was resolved. -/
structure FieldResolved (rule : LocaleRule) (elements : List Element) (field : String)
    (i j : Instance) : Prop where
  refilled : i.Refilled j
  others : ∀ other, field ≠ other → j.get? other = i.get? other
  /-- It refers to what is found, or it stays as it is. -/
  value : j.get? field = ((listed? rule elements field i).map
    (fun settings => .reference settings.reference)).or (i.get? field)
  /-- That is, the last settings of its brand for its locale, if slashes are not in the way. -/
  within_iff : listed? rule elements field i = settings? rule elements field i
    ↔ ∀ settings ∈ listed? rule elements field i, slashes? rule settings = slashes? rule i

theorem resolveField_resolved (rule : LocaleRule) (elements : List Element) (field : String)
    (i : Instance) :
    FieldResolved rule elements field i (resolveField rule (table rule elements) field i) := by
  rw [resolveField_eq]
  cases hlisted : listed? rule elements field i with
  | none =>
    exact ⟨.refl i, fun _ _ => rfl, by rw [hlisted]; rfl, listed?_eq_settings?_iff⟩
  | some settings =>
    refine ⟨.set i field _, fun other hother => i.get?_set_of_ne hother _, ?_,
      listed?_eq_settings?_iff⟩
    rw [hlisted]
    exact i.get?_set_self field _

/-- What stands for the brand and for another field stays, unless the field is the brand. -/
theorem FieldResolved.pair? {j : Instance} (h : FieldResolved rule elements field i j)
    (hbrand : field ≠ rule.brandField) {other : String} (hother : field ≠ other) :
    pair? rule other j = pair? rule other i := by
  unfold Locales.pair? part?
  rw [h.others _ hbrand, h.others _ hother]

/-- An instance before and after a rule.  Its locale is resolved, and then that of the text it goes
back to, if the rule is about them. -/
inductive ResolvedBy (rule : LocaleRule) (elements : List Element) (i : Instance) :
    Instance → Prop
  | neither (hlocale : ¬Names rule i.typeName localeField) : ResolvedBy rule elements i i
  | locale {j : Instance} (hlocale : Names rule i.typeName localeField)
      (hsource : ¬Names rule i.typeName sourceLocaleField)
      (h : FieldResolved rule elements localeField i j) : ResolvedBy rule elements i j
  | both {j k : Instance} (hsource : Names rule i.typeName sourceLocaleField)
      (h : FieldResolved rule elements localeField i j)
      (hpair : localeField ≠ rule.brandField →
        pair? rule sourceLocaleField j = pair? rule sourceLocaleField i)
      (h' : FieldResolved rule elements sourceLocaleField j k) : ResolvedBy rule elements i k

theorem resolveInstance_resolved (rule : LocaleRule) (elements : List Element) (i : Instance) :
    ResolvedBy rule elements i (resolveInstance rule (table rule elements) i) := by
  unfold resolveInstance
  split
  next htype =>
    have hlocale := resolveField_resolved rule elements localeField i
    dsimp only
    split
    -- the second field is read from what the first step left, whose type is still the same
    next hsource =>
      rw [hlocale.refilled.typeName] at hsource
      refine .both ⟨htype, .inr ⟨rfl, hsource⟩⟩ hlocale (fun hbrand => ?_)
        (resolveField_resolved rule elements sourceLocaleField _)
      exact hlocale.pair? hbrand (by decide)
    next hsource =>
      rw [hlocale.refilled.typeName] at hsource
      refine .locale ⟨htype, .inl rfl⟩ (fun hnames => ?_) hlocale
      exact hsource (hnames.2.resolve_left (by decide)).2
  next htype => exact .neither fun hnames => htype hnames.1

end Locales

/-! ## §4. All elements. -/

theorem Element.related_mapInstances {R : Instance → Instance → Prop} {f : Instance → Instance}
    (h : ∀ i, R i (f i)) (elements : List Element) :
    Forall₂ (Related R) elements (mapInstances f elements) := by
  refine List.forall₂_map_right_iff.mpr (List.forall₂_same.mpr fun e _ => ?_)
  cases e with
  | object o => exact .object o
  | inst i => exact .inst (h i)

/-- When elements are fetched, each rule for locales makes them references to settings: the last
ones whose brand and locale join to the same text.  These are the last ones of the brand for the
locale exactly if the text for their brand has as many slashes as that for the brand of the
element. -/
theorem locales_within_brand_iff (s : Session ω) (henabled : s.settings.fetch.guideEnabled = true)
    {before after : List LocaleRule} {rule : LocaleRule}
    (hrules : s.settings.filters.locales = before ++ rule :: after) (elements : List Element)
    (memory : Memory) (w : ω) :
    let reached := Locales.resolved before elements
    let next := Locales.resolvedBy reached rule
    let fetched := ((Filter.locale s).onFetch elements memory w).1
    fetched.result = .ok () ∧ fetched.state = Locales.resolved after next
      ∧ Forall₂ (Element.Related (Locales.ResolvedBy rule reached)) reached next := by
  intro reached next fetched
  refine ⟨rfl, ?_, Element.related_mapInstances (Locales.resolveInstance_resolved rule reached) _⟩
  show (if s.settings.fetch.guideEnabled then Locales.resolved s.settings.filters.locales elements
    else elements) = _
  rw [if_pos henabled, hrules]
  exact List.foldl_append

/-- Settings of a brand with a slash, an article of another brand and one of the same brand. -/
def Element.ofBrands : List Element :=
  let ofType (typeName name brand locale : String) : Element :=
    .inst (.named name (.ofType "z" typeName)
      [("brand", .string brand), ("locale", .string locale)])
  [ofType "language" "l" "a/b" "c", ofType "article" "a" "a" "b/c",
    ofType "article" "d" "a/b" "c"]

/-- A reference that a locale became is to settings with its brand and with itself. -/
def Locales.WithinBrand (rule : LocaleRule) (elements : List Element) (i j : Instance) : Prop :=
  ∀ r, j.get? localeField = some (.reference r) → i.get? localeField ≠ some (.reference r) →
    ∃ settings ∈ Element.instancesOf elements rule.settingsType, r = settings.reference
      ∧ pair? rule localeField settings = pair? rule localeField i

/-- The article of the other brand is given the settings, too. -/
theorem locale_of_other_brand :
    let rule : LocaleRule := { settingsType := "language", localeTypes := ["article"] }
    let fetched := ((Filter.locale .ofLanguages).onFetch Element.ofBrands {} ()).1
    Session.ofLanguages.settings.filters.locales = [rule]
      ∧ Session.ofLanguages.settings.fetch.guideEnabled = true
      ∧ ¬Forall₂ (Element.Related (Locales.WithinBrand rule Element.ofBrands))
        Element.ofBrands fetched.state := by
  intro rule fetched
  refine ⟨rfl, rfl, fun h => ?_⟩
  -- the second element is the article of the other brand
  obtain _ | ⟨-, _ | ⟨harticle, -⟩⟩ := h
  cases harticle with
  | inst hwithin =>
    obtain ⟨settings, hsettings, -, hpair⟩ := hwithin _ rfl nofun
    obtain rfl | hnone := List.mem_cons.mp hsettings
    · exact absurd hpair (by decide)
    · exact nomatch hnone

/-- Of the two articles only for the one of the same brand the settings are found that are its. -/
theorem locales_within_brand_for_slash :
    let elements := Element.ofBrands
    let rule : LocaleRule := { settingsType := "language", localeTypes := ["article"] }
    let fetched := ((Filter.locale .ofLanguages).onFetch elements {} ()).1
    Session.ofLanguages.settings.fetch.guideEnabled = true
      ∧ Session.ofLanguages.settings.filters.locales = [] ++ rule :: []
      ∧ fetched.state = Locales.resolvedBy elements rule
      ∧ Forall₂ (Element.Related (Locales.ResolvedBy rule elements)) elements fetched.state
      ∧ (Element.instances elements).map (fun i =>
          ((Locales.listed? rule elements "locale" i).map (·.id.fullName),
            (Locales.settings? rule elements "locale" i).map (·.id.fullName)))
        = [(some "z.language.instance.l", some "z.language.instance.l"),
          (some "z.language.instance.l", none),
          (some "z.language.instance.l", some "z.language.instance.l")] := by
  intro elements rule fetched
  have hrules : Session.ofLanguages.settings.filters.locales = [] ++ rule :: [] := rfl
  obtain ⟨-, hstate, hrelated⟩ := locales_within_brand_iff .ofLanguages rfl hrules elements {} ()
  exact ⟨rfl, hrules, hstate, hstate ▸ hrelated, by decide +kernel⟩

end AccountSync
