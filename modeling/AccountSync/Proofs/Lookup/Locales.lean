/-
  AccountSync.Proofs.Lookup.Locales
  ─────────────────────────────────
  **A LOCALE IS WRITTEN OUT AS THE IDENTIFIER OF ITS SETTINGS.**

  A fetch turns locales into references to the language settings of their brand.  A reference
  is written out as the identifier of what it refers to, so of a locale that was resolved the
  settings' identifier is sent, and nothing can be sent if they have none.  Only a locale
  without settings is sent as it was.

      Locales.Found           — a reference to the settings of a brand and a locale
      Locales.Found.flatten   — what it is written out as, if they are a whole instance
      Locales.Fetched         — an instance with references for its locales
      locales_written_out     — the filter of locales when elements are fetched
-/
import AccountSync.Proofs.Element.Passes
import AccountSync.Proofs.Lookup.Tables
import AccountSync.Proofs.Value.Flatten

namespace AccountSync

open List (Forall₂)

variable {ω : Type}

/-! ## §1. References to settings. -/

/-- What a reference to the instance is written out as. -/
def Instance.writtenId (i : Instance) : Except Failure Json :=
  ((i.get? "id").map Value.flatten).getD
    (.error (.invalidTemplateValue i.id Reference.noTargetId))

/-- That is a given text only if the identifier is. -/
theorem Instance.writtenId_eq_ok_iff (i : Instance) (j : Json) :
    i.writtenId = .ok j ↔ ∃ id, i.get? "id" = some id ∧ id.flatten = .ok j := by
  unfold writtenId
  cases i.get? "id" with
  | none => exact ⟨fun h => absurd h nofun, fun ⟨_, h, _⟩ => absurd h nofun⟩
  | some id => exact ⟨fun h => ⟨id, rfl, h⟩, fun ⟨_, heq, h⟩ => Option.some.inj heq ▸ h⟩

namespace Locales

/-- The instances differ in nothing but locales. -/
structure Alike (i j : Instance) : Prop where
  refilled : i.Refilled j
  others : ∀ field, field ≠ localeField → field ≠ sourceLocaleField → j.get? field = i.get? field

namespace Alike

theorem refl (i : Instance) : Alike i i :=
  ⟨.refl i, fun _ _ _ => rfl⟩

theorem trans {i j k : Instance} (h : Alike i j) (h' : Alike j k) : Alike i k where
  refilled := h.refilled.trans h'.refilled
  others := fun field hlocale hsource =>
    (h'.others field hlocale hsource).trans (h.others field hlocale hsource)

/-- References to them are written out as the same. -/
theorem writtenId {i j : Instance} (h : Alike i j) : j.writtenId = i.writtenId := by
  unfold Instance.writtenId
  rw [h.others "id" (by decide) (by decide), h.refilled.id]

end Alike

/-- The rule is about the field of instances of the type. -/
def Names (rule : LocaleRule) (typeName field : String) : Prop :=
  rule.localeTypes.contains typeName = true
    ∧ (field = localeField
      ∨ field = sourceLocaleField ∧ rule.sourceLocaleTypes.contains typeName = true)

/-- The value is a reference to settings that have the brand and the locale of the instance, both
as the rules before left them. -/
def Found (rule : LocaleRule) (settings i : Instance) (field : String) (v : Value) : Prop :=
  settings.typeName = rule.settingsType
    ∧ ∃ settings' i', Alike settings settings' ∧ Alike i i'
      ∧ (∃ key, fieldKey? rule field i' = some key
        ∧ fieldKey? rule localeField settings' = some key)
      ∧ v = .reference settings'.reference

/-- It is written out as the identifier of the settings. -/
theorem Found.flatten {rule : LocaleRule} {settings i : Instance} {field : String} {v : Value}
    (h : Found rule settings i field v) (htop : settings.id.isTopLevel = true) :
    v.flatten = settings.writtenId := by
  obtain ⟨-, settings', i', hsettings, -, -, rfl⟩ := h
  rw [← hsettings.writtenId]
  exact Value.flatten_reference (hsettings.refilled.id ▸ htop)

/-- It is written out as a text only if that is the identifier of the settings. -/
theorem Found.flatten_eq_string_iff {rule : LocaleRule} {settings i : Instance} {field : String}
    {v : Value} (h : Found rule settings i field v) (text : String) :
    v.flatten = .ok (.string text) ↔ settings.id.isTopLevel = true
      ∧ ∃ id, settings.get? "id" = some id ∧ id.flatten = .ok (.string text) := by
  cases htop : settings.id.isTopLevel with
  | true =>
    rw [h.flatten htop, settings.writtenId_eq_ok_iff]
    exact (and_iff_right rfl).symm
  | false =>
    obtain ⟨-, settings', i', hsettings, -, -, rfl⟩ := h
    have hnested : settings'.id.isTopLevel = false := hsettings.refilled.id ▸ htop
    exact iff_of_false (Value.flatten_reference_ne_string hnested text) fun h => nomatch h.1

/-! ## §2. Fields that are resolved. -/

/-- The second instance is the first one with references to settings for some of its locales. -/
structure Fetched (rules : List LocaleRule) (origin : List Instance) (i j : Instance) : Prop where
  refilled : i.Refilled j
  fields : ∀ field, j.get? field = i.get? field
    ∨ ∃ rule ∈ rules, Names rule i.typeName field
      ∧ ∃ settings ∈ origin, ∃ v, Found rule settings i field v ∧ j.get? field = some v

namespace Fetched

variable {rules : List LocaleRule} {origin : List Instance} {i j k : Instance}

theorem refl (rules : List LocaleRule) (origin : List Instance) (i : Instance) :
    Fetched rules origin i i :=
  ⟨.refl i, fun _ => .inl rfl⟩

theorem alike (h : Fetched rules origin i j) : Alike i j where
  refilled := h.refilled
  others := by
    intro field hlocale hsource
    refine (h.fields field).resolve_right fun ⟨rule, _, hnames, _⟩ => ?_
    rcases hnames.2 with rfl | ⟨rfl, -⟩
    · exact hlocale rfl
    · exact hsource rfl

/-- Where two instances are alike, whatever is found for the second is found for the first. -/
theorem found_of_alike (halike : Alike i j) {rule : LocaleRule} {settings : Instance}
    {field : String} {v : Value} (h : Found rule settings j field v) :
    Found rule settings i field v := by
  obtain ⟨htype, settings', i', hsettings, hi, hkey, hv⟩ := h
  exact ⟨htype, settings', i', hsettings, halike.trans hi, hkey, hv⟩

theorem trans (h : Fetched rules origin i j) (h' : Fetched rules origin j k) :
    Fetched rules origin i k where
  refilled := h.refilled.trans h'.refilled
  fields := by
    intro field
    rcases h'.fields field with hsame | ⟨rule, hrule, hnames, settings, hsettings, v, hfound, hv⟩
    · rw [hsame]
      exact h.fields field
    · refine .inr ⟨rule, hrule, ?_, settings, hsettings, v, found_of_alike h.alike hfound, hv⟩
      rwa [h.refilled.typeName] at hnames

theorem mono {rules' : List LocaleRule} (hrules : ∀ rule ∈ rules, rule ∈ rules')
    (h : Fetched rules origin i j) : Fetched rules' origin i j where
  refilled := h.refilled
  fields := by
    intro field
    rcases h.fields field with hsame | ⟨rule, hrule, hmore⟩
    · exact .inl hsame
    · exact .inr ⟨rule, hrules rule hrule, hmore⟩

end Fetched

/-- The instances are as the rules before left those from the beginning. -/
def Descend (origin : List Instance) (elements : List Element) : Prop :=
  ∀ i ∈ Element.instances elements, ∃ settings ∈ origin, Alike settings i

variable {elements : List Element} {origin : List Instance}

/-- A field that a rule is about stays, or it becomes a reference to settings. -/
theorem resolveField_fetched (hdescend : Descend origin elements) {rule : LocaleRule}
    {field : String} {i : Instance} (hnames : Names rule i.typeName field) :
    Fetched [rule] origin i (resolveField rule (table rule elements) field i) := by
  unfold resolveField
  cases hkey : fieldKey? rule field i with
  | none => exact .refl _ _ i
  | some key =>
    rw [Option.bind_some]
    unfold table
    rw [LookupTable.find?_ofInstances]
    cases hfound : (Element.instancesOf elements rule.settingsType).reverse.find?
        (fun i => fieldKey? rule localeField i = some key) with
    | none => exact .refl _ _ i
    | some settings' =>
      -- the settings of that brand and locale are among those from the beginning
      have hmem := List.mem_reverse.mp (List.mem_of_find?_eq_some hfound)
      have hsettingsKey := List.find?_some hfound
      obtain ⟨settings, hsettings, halike⟩ := hdescend settings' (Element.mem_of_instancesOf hmem)
      have htypeName := List.of_mem_filter hmem
      have htype : settings.typeName = rule.settingsType :=
        halike.refilled.typeName.symm.trans (of_decide_eq_true htypeName)
      refine ⟨.set i field _, fun other => ?_⟩
      by_cases hother : field = other
      · subst hother
        refine .inr ⟨rule, List.mem_singleton_self rule, hnames, settings, hsettings, _, ?_,
          i.get?_set_self field _⟩
        exact ⟨htype, settings', i, halike, .refl i,
          ⟨key, hkey, of_decide_eq_true hsettingsKey⟩, rfl⟩
      · exact .inl (i.get?_set_of_ne hother _)

theorem resolveInstance_fetched (hdescend : Descend origin elements) (rule : LocaleRule)
    (i : Instance) :
    Fetched [rule] origin i (resolveInstance rule (table rule elements) i) := by
  unfold resolveInstance
  split
  next htype =>
    have hlocale : Fetched [rule] origin i
        (resolveField rule (table rule elements) localeField i) :=
      resolveField_fetched hdescend ⟨htype, .inl rfl⟩
    dsimp only
    split
    next hsource =>
      refine hlocale.trans (resolveField_fetched hdescend ⟨?_, .inr ⟨rfl, hsource⟩⟩)
      rw [hlocale.refilled.typeName]
      exact htype
    · exact hlocale
  · exact .refl _ _ i

/-- Locales become references to settings, rule after rule. -/
theorem resolved_fetched (rules : List LocaleRule) (elements : List Element) :
    Forall₂ (Element.Related (Fetched rules (Element.instances elements))) elements
      (resolved rules elements) := by
  refine Element.related_passes (R := fun rules => Fetched rules (Element.instances elements))
    (Descend (Element.instances elements)) (.refl [] _) (fun current hdescend rule => ?_)
    (fun i hi => ⟨i, hi, .refl i⟩) rules
  refine ⟨_, rfl, ?_, fun i _ rest k h => ?_⟩
  · unfold Descend
    rw [Element.instances_mapInstances]
    refine List.forall_mem_map.mpr fun i hi => ?_
    obtain ⟨settings, hsettings, halike⟩ := hdescend i hi
    exact ⟨settings, hsettings, halike.trans (resolveInstance_fetched hdescend rule i).alike⟩
  · refine ((resolveInstance_fetched hdescend rule i).mono ?_).trans (h.mono ?_)
    · exact fun r hr => List.mem_cons.mpr (.inl (List.mem_singleton.mp hr))
    · exact fun r hr => List.mem_cons_of_mem rule hr

end Locales

/-! ## §3. All elements. -/

/-- A text in a locale field stays, and is written out as it is, or it becomes a reference to
settings of its brand and locale, and is written out as their identifier.  That is the text itself
only if the identifier is. -/
structure Locales.WrittenOut (rules : List LocaleRule) (origin : List Instance) (i j : Instance) :
    Prop where
  alike : Alike i j
  texts : ∀ field text, i.get? field = some (.string text) →
    j.get? field = some (.string text)
      ∨ ∃ rule ∈ rules, Names rule i.typeName field
        ∧ ∃ settings ∈ origin, ∃ v, Found rule settings i field v ∧ j.get? field = some v
          ∧ (settings.id.isTopLevel = true → v.flatten = settings.writtenId)
          ∧ (v.flatten = .ok (.string text) ↔ settings.id.isTopLevel = true
            ∧ ∃ id, settings.get? "id" = some id ∧ id.flatten = .ok (.string text))

/-- When elements are fetched, locales become references to language settings and are written out
as the identifiers of these; a locale without settings is written out as it was.  No other field
changes. -/
theorem locales_written_out (s : Session ω) (elements : List Element) (memory : Memory) (w : ω) :
    let rules := s.settings.filters.locales
    let fetched := ((Filter.locale s).onFetch elements memory w).1
    fetched.result = .ok ()
      ∧ Forall₂ (Element.Related (Locales.WrittenOut rules (Element.instances elements)))
        elements fetched.state := by
  intro rules fetched
  refine ⟨rfl, ?_⟩
  have hfetched : Forall₂ (Element.Related (Locales.Fetched rules (Element.instances elements)))
      elements fetched.state := by
    show Forall₂ _ elements (if s.settings.fetch.guideEnabled then _ else elements)
    split
    · exact Locales.resolved_fetched rules elements
    · exact Element.related_refl (.refl rules _) elements
  refine Element.related_mono (fun i _ j h => ⟨h.alike, fun field text htext => ?_⟩) hfetched
  rcases h.fields field with hsame | ⟨rule, hrule, hnames, settings, hsettings, v, hfound, hv⟩
  · exact .inl (hsame.trans htext)
  · exact .inr ⟨rule, hrule, hnames, settings, hsettings, v, hfound, hv, hfound.flatten,
      hfound.flatten_eq_string_iff text⟩

/-- An account with language settings for its texts. -/
def Session.ofLanguages : Session Unit where
  settings := {
    adapter := "z"
    client := { baseUrl := "https://a" }
    filters := { locales := [{ settingsType := "language", localeTypes := ["article"] }] } }
  client := ⟨fun _ => pure (.error { status := none, message := "" })⟩
  next := .eager

/-- Settings for one language, and two articles, one of them in another language. -/
def Element.ofLanguages : List Element :=
  let ofType (typeName name : String) (value : Fields) : Element :=
    .inst (.named name (.ofType "z" typeName) value)
  [ofType "language" "l"
      [("brand", .string "b"), ("id", .number (.int 5)), ("locale", .string "en")],
    ofType "article" "a" [("brand", .string "b"), ("locale", .string "en")],
    ofType "article" "c" [("brand", .string "b"), ("locale", .string "fr")]]

/-- What the locales of instances are written out as. -/
def Element.writtenLocales (elements : List Element) : List (Option (Except Failure Json)) :=
  (instances elements).map (fun i => (i.get? Locales.localeField).map Value.flatten)

/-- The article is written out with the number of the settings for its locale. -/
theorem locale_written_out_as_number :
    let elements := Element.ofLanguages
    let fetched := ((Filter.locale .ofLanguages).onFetch elements {} ()).1
    let same := Element.writtenLocales fetched.state = Element.writtenLocales elements
    Element.writtenLocales elements
        = [some (.ok (.string "en")), some (.ok (.string "en")), some (.ok (.string "fr"))]
      ∧ Element.writtenLocales fetched.state
        = [some (.ok (.string "en")), some (.ok (.number (.int 5))), some (.ok (.string "fr"))]
      ∧ ¬same := by
  intro elements fetched same
  have hbefore : Element.writtenLocales elements
      = [some (.ok (.string "en")), some (.ok (.string "en")), some (.ok (.string "fr"))] := rfl
  have hafter : Element.writtenLocales fetched.state
      = [some (.ok (.string "en")), some (.ok (.number (.int 5))), some (.ok (.string "fr"))] := rfl
  refine ⟨hbefore, hafter, fun hsame => ?_⟩
  rw [show Element.writtenLocales fetched.state = Element.writtenLocales elements from hsame,
    hbefore] at hafter
  injection hafter with _ hrest
  injection hrest with harticle _
  exact absurd harticle nofun

/-- Only of the article in the other language the locale is left as it was. -/
theorem locales_written_out_for_languages :
    let elements := Element.ofLanguages
    let rules := Session.ofLanguages.settings.filters.locales
    let fetched := ((Filter.locale .ofLanguages).onFetch elements {} ()).1
    Forall₂ (Element.Related (Locales.WrittenOut rules (Element.instances elements)))
        elements fetched.state
      ∧ (Element.instances fetched.state).map (fun i => (i.get? "locale").map Value.shape)
        = [some "string", some "reference", some "string"] := by
  intro elements rules fetched
  exact ⟨(locales_written_out .ofLanguages elements {} ()).2, by decide +kernel⟩

end AccountSync
