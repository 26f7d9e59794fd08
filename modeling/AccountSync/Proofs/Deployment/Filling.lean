/-
  AccountSync.Proofs.Deployment.Filling
  ─────────────────────────────────────
  **A URL IS FILLED IN ONE PASS.**

  Every url can be read in exactly one way as literal text without an opening brace, alternating
  with names in braces, where a name extends to the next closing brace.  What is filled in depends
  on nothing but the names: the literals stay, each placeholder becomes the text of its name,
  whatever that looks like, and the first name without a text is what fails.

      UrlTemplate.Reading          — literals and placeholders
      UrlTemplate.Reads            — what a text is read as
      UrlTemplate.exists_unique_reading — there is one reading of every text
      UrlTemplate.Reading.woven    — the literals, with texts between them
      UrlTemplate.Reading.FirstFault — the first thing wrong, from the left
      UrlTemplate.fills_in_one_pass
-/
import AccountSync.Deployment.Placeholder
import AccountSync.Proofs.Text.Separator
import Mathlib.Data.List.Forall2

namespace AccountSync

open List (Forall₂)

/-- If each item has a partner, the list has a list of partners. -/
theorem forall₂_of_forall_exists {α β : Type} {R : α → β → Prop} {xs : List α}
    (h : ∀ x ∈ xs, ∃ y, R x y) : ∃ ys, Forall₂ R xs ys := by
  induction xs with
  | nil => exact ⟨[], .nil⟩
  | cons x rest ih =>
    obtain ⟨hx, hrest⟩ := List.forall_mem_cons.mp h
    obtain ⟨y, hy⟩ := hx
    obtain ⟨ys, hys⟩ := ih hrest
    exact ⟨y :: ys, .cons hy hys⟩

/-- And conversely. -/
theorem exists_of_forall₂ {α β : Type} {R : α → β → Prop} {xs : List α} {ys : List β}
    (h : Forall₂ R xs ys) : ∀ x ∈ xs, ∃ y, R x y := by
  induction h with
  | nil => exact nofun
  | cons hfirst _ ih => exact List.forall_mem_cons.mpr ⟨⟨_, hfirst⟩, ih⟩

namespace UrlTemplate

/-! ## §1. What a url is read as. -/

/-- Literal text, and then nothing more, or a brace that is never closed and what follows it, or a
placeholder and what is read after it. -/
inductive Reading where
  | last (literal : List Char)
  | unclosed (literal rest : List Char)
  | hole (literal name : List Char) (after : Reading)

/-- A text is read so: there is no opening brace in a literal, and no closing brace in a name or in
what follows a brace that is never closed. -/
inductive Reads : List Char → Reading → Prop
  | last {literal : List Char} (h : opening ∉ literal) : Reads literal (.last literal)
  | unclosed {literal rest : List Char} (h : opening ∉ literal) (hrest : closing ∉ rest) :
    Reads (literal ++ opening :: rest) (.unclosed literal rest)
  | hole {literal name cs : List Char} {after : Reading} (h : opening ∉ literal)
    (hname : closing ∉ name) (hafter : Reads cs after) :
    Reads (literal ++ opening :: (name ++ closing :: cs)) (.hole literal name after)

theorem Reads.unique {cs : List Char} {r r' : Reading} (h : Reads cs r) (h' : Reads cs r') :
    r = r' := by
  induction h generalizing r' with
  | @last literal hliteral =>
    cases h' with
    | last _ => rfl
    | unclosed | hole => simp at hliteral
  | @unclosed literal rest hliteral hrest =>
    generalize hcs : literal ++ opening :: rest = cs at h'
    cases h' with
    | last hother => simp [← hcs] at hother
    | unclosed hliteral' _ =>
      obtain ⟨rfl, rfl⟩ := Text.cut_inj_of_not_mem hliteral hliteral' hcs
      rfl
    | hole hliteral' _ _ =>
      obtain ⟨rfl, rfl⟩ := Text.cut_inj_of_not_mem hliteral hliteral' hcs
      simp at hrest
  | @hole literal name rest after hliteral hname _ ih =>
    generalize hcs : literal ++ opening :: (name ++ closing :: rest) = cs at h'
    cases h' with
    | last hother => simp [← hcs] at hother
    | unclosed hliteral' hrest =>
      obtain ⟨rfl, rfl⟩ := Text.cut_inj_of_not_mem hliteral hliteral' hcs
      simp at hrest
    | hole hliteral' hname' hafter' =>
      obtain ⟨rfl, hnames⟩ := Text.cut_inj_of_not_mem hliteral hliteral' hcs
      obtain ⟨rfl, rfl⟩ := Text.cut_inj_of_not_mem hname hname' hnames
      rw [ih hafter']

/-- **Every text is read in exactly one way.** -/
theorem exists_unique_reading (cs : List Char) : ∃! r, Reads cs r := by
  refine existsUnique_of_exists_of_unique ?_ fun r r' h h' => h.unique h'
  -- on the length, as the rest after a placeholder is shorter
  generalize hn : cs.length = n
  induction n using Nat.strongRecOn generalizing cs with
  | _ n ih =>
    subst hn
    rcases Text.not_mem_or_cut opening cs with hnone | ⟨literal, rest, rfl, hliteral⟩
    · exact ⟨_, .last hnone⟩
    · rcases Text.not_mem_or_cut closing rest with hnone | ⟨name, rest, rfl, hname⟩
      · exact ⟨_, .unclosed hliteral hnone⟩
      · obtain ⟨after, hafter⟩ := ih rest.length (by simp; omega) rest rfl
        exact ⟨_, .hole hliteral hname hafter⟩

/-! ## §2. What it is filled in with. -/

/-- A name stands for a text: it is a key with that text under it, or with a number that is written
so. -/
def Fills (values : Json) (name text : String) : Prop :=
  values.get? name = some (.string text)
    ∨ ∃ n, values.get? name = some (.number n) ∧ n.text = text

namespace Reading

/-- The names of the placeholders from left to right. -/
def names : Reading → List String
  | last _ => []
  | unclosed _ _ => []
  | hole _ name after => String.ofList name :: after.names

/-- Every brace is closed. -/
def Closed : Reading → Prop
  | last _ => True
  | unclosed _ _ => False
  | hole _ _ after => after.Closed

/-- The literals as they are, with a text in place of each placeholder. -/
def woven : Reading → List String → List Char
  | last literal, _ => literal
  | unclosed literal _, _ => literal
  | hole literal _ after, texts =>
    literal ++ ((texts.headD "").toList ++ after.woven texts.tail)

/-- What is wrong with the first placeholder, from the left, that is not closed or has a name
without a text. -/
def FirstFault (r : Reading) (url : String) (values : Json) (fault : UrlFault) : Prop :=
  ∃ before texts, Forall₂ (Fills values) before texts
    ∧ ((∃ name after, r.names = before ++ name :: after ∧ (∀ text, ¬Fills values name text)
        ∧ fault = .missing name)
      ∨ (r.names = before ∧ ¬r.Closed ∧ fault = .unterminated url))

end Reading

variable {url : String} {values : Json}

theorem filling?_eq_some_iff {found : Option Json} {text : String} :
    filling? found = some text
      ↔ found = some (.string text) ∨ ∃ n, found = some (.number n) ∧ n.text = text := by
  cases found with
  | none => simp [filling?]
  | some j => cases j <;> simp [filling?]

/-- A name that stands for a text is replaced by it. -/
theorem lookup_of_fills {name text : String} (h : Fills values name text) :
    lookup values name = .ok text.toList := by
  unfold lookup
  rw [filling?_eq_some_iff.mpr h]

/-- A name that stands for no text is missing. -/
theorem lookup_of_not_fills {name : String} (h : ∀ text, ¬Fills values name text) :
    lookup values name = .error (.missing name) := by
  unfold lookup
  cases hfound : filling? (values.get? name) with
  | none => rfl
  | some text => exact absurd (filling?_eq_some_iff.mp hfound) (h text)

/-! ## §3. The pass. -/

/-- Literals are passed on. -/
theorem fillFrom_literal {literal : List Char} (h : opening ∉ literal) (rest : List Char) :
    fillFrom url values none (literal ++ rest)
      = (fillFrom url values none rest).map (literal ++ ·) := by
  induction literal with
  | nil => cases hrest : fillFrom url values none rest <;> simp [hrest, Except.map]
  | cons c literal ih =>
    have hc := List.ne_of_not_mem_cons h
    have hliteral := List.not_mem_of_not_mem_cons h
    show (if c = opening then _ else do
      let tail ← fillFrom url values none (literal ++ rest)
      pure (c :: tail)) = _
    rw [if_neg (Ne.symm hc), ih hliteral]
    cases fillFrom url values none rest <;> rfl

/-- A name is read up to the brace that closes it. -/
theorem fillFrom_name {name : List Char} (h : closing ∉ name) (read rest : List Char) :
    fillFrom url values (some read) (name ++ closing :: rest) = (do
      let text ← lookup values (String.ofList (read.reverse ++ name))
      let tail ← fillFrom url values none rest
      pure (text ++ tail)) := by
  induction name generalizing read with
  | nil =>
    rw [List.append_nil]
    exact if_pos rfl
  | cons c name ih =>
    have hc := List.ne_of_not_mem_cons h
    have hname := List.not_mem_of_not_mem_cons h
    show (if c = closing then _ else fillFrom url values (some (c :: read)) _) = _
    -- what was read is kept in reverse
    have hnext := ih hname (c :: read)
    rw [List.reverse_cons, List.append_assoc] at hnext
    rw [if_neg (Ne.symm hc)]
    exact hnext

/-- A brace that is not closed is noticed at the end. -/
theorem fillFrom_unclosed {rest : List Char} (h : closing ∉ rest) (read : List Char) :
    fillFrom url values (some read) rest = .error (.unterminated url) := by
  induction rest generalizing read with
  | nil => rfl
  | cons c rest ih =>
    have hc := List.ne_of_not_mem_cons h
    have hrest := List.not_mem_of_not_mem_cons h
    show (if c = closing then _ else fillFrom url values (some (c :: read)) rest) = _
    rw [if_neg (Ne.symm hc), ih hrest]

/-- A literal and a placeholder after it. -/
theorem fillFrom_hole {literal name : List Char} (h : opening ∉ literal) (hname : closing ∉ name)
    (cs : List Char) :
    fillFrom url values none (literal ++ opening :: (name ++ closing :: cs)) = (do
      let text ← lookup values (String.ofList name)
      let tail ← fillFrom url values none cs
      pure (literal ++ (text ++ tail))) := by
  rw [fillFrom_literal h]
  show Except.map _ (fillFrom url values (some []) (name ++ closing :: cs)) = _
  rw [fillFrom_name hname, List.reverse_nil, List.nil_append]
  cases lookup values (String.ofList name) with
  | error fault => rfl
  | ok text => cases fillFrom url values none cs <;> rfl

variable {cs : List Char} {r : Reading}

/-- If every brace is closed and every name stands for a text, the texts are put between the
literals. -/
theorem fillFrom_closed (h : Reads cs r) (hclosed : r.Closed) {texts : List String}
    (htexts : Forall₂ (Fills values) r.names texts) :
    fillFrom url values none cs = .ok (r.woven texts) := by
  induction h generalizing texts with
  | @last literal hliteral =>
    have hend : fillFrom url values none (literal ++ []) = _ := fillFrom_literal hliteral []
    rw [List.append_nil] at hend
    rw [hend]
    exact congrArg Except.ok (List.append_nil literal)
  | unclosed _ _ => exact absurd hclosed id
  | hole hliteral hname _ ih =>
    cases htexts with
    | cons hfirst hrest =>
      rw [fillFrom_hole hliteral hname, lookup_of_fills hfirst, ih hclosed hrest]
      rfl

/-- The first thing wrong is what fails. -/
theorem fillFrom_fault (h : Reads cs r) {fault : UrlFault} (hfault : r.FirstFault url values fault) :
    fillFrom url values none cs = .error fault := by
  obtain ⟨before, texts, htexts, hwrong⟩ := hfault
  induction h generalizing before texts with
  | last _ =>
    rcases hwrong with ⟨name, after, hnames, -⟩ | ⟨-, hopen, -⟩
    · simp [Reading.names] at hnames
    · exact absurd trivial hopen
  | @unclosed literal rest hliteral hrest =>
    rcases hwrong with ⟨name, after, hnames, -⟩ | ⟨-, -, rfl⟩
    · simp [Reading.names] at hnames
    · rw [fillFrom_literal hliteral]
      show Except.map _ (fillFrom url values (some []) rest) = _
      rw [fillFrom_unclosed hrest]
      rfl
  | @hole literal name cs after hliteral hname _ ih =>
    rw [fillFrom_hole hliteral hname]
    cases htexts with
    | nil =>
      -- the first placeholder is the one
      rcases hwrong with ⟨name, after, hnames, hmissing, rfl⟩ | ⟨hnames, -⟩
      · obtain ⟨rfl, -⟩ := List.cons.inj hnames
        rw [lookup_of_not_fills hmissing]
        rfl
      · simp [Reading.names] at hnames
    | @cons first text before texts hfirst hrest =>
      -- it comes later, and what is wrong with the rest is wrong with the whole
      have hnext : String.ofList name = first ∧ fillFrom url values none cs = .error fault := by
        rcases hwrong with ⟨missing, others, hnames, hmissing⟩ | ⟨hnames, hopen⟩
        · obtain ⟨hname, hnames⟩ := List.cons.inj hnames
          exact ⟨hname, ih before texts hrest (.inl ⟨missing, others, hnames, hmissing⟩)⟩
        · obtain ⟨hname, hnames⟩ := List.cons.inj hnames
          exact ⟨hname, ih before texts hrest (.inr ⟨hnames, hopen⟩)⟩
      obtain ⟨rfl, hrest⟩ := hnext
      rw [lookup_of_fills hfirst, hrest]
      rfl

/-! ## §4. Success and failure. -/

/-- All names stand for texts, or there is a first one that does not. -/
theorem forall₂_fills_or (values : Json) (names : List String) :
    (∃ texts, Forall₂ (Fills values) names texts)
      ∨ ∃ before name after texts, names = before ++ name :: after
        ∧ Forall₂ (Fills values) before texts ∧ ∀ text, ¬Fills values name text := by
  induction names with
  | nil => exact .inl ⟨[], .nil⟩
  | cons name names ih =>
    by_cases hname : ∃ text, Fills values name text
    · obtain ⟨text, htext⟩ := hname
      rcases ih with ⟨texts, htexts⟩ | ⟨before, other, after, texts, rfl, htexts, hother⟩
      · exact .inl ⟨text :: texts, .cons htext htexts⟩
      · exact .inr ⟨name :: before, other, after, text :: texts, rfl, .cons htext htexts, hother⟩
    · exact .inr ⟨[], name, names, [], rfl, .nil, not_exists.mp hname⟩

/-- There is nothing wrong, or there is a first thing wrong. -/
theorem closed_or_firstFault (r : Reading) (url : String) (values : Json) :
    (r.Closed ∧ ∃ texts, Forall₂ (Fills values) r.names texts)
      ∨ ∃ fault, r.FirstFault url values fault := by
  rcases forall₂_fills_or values r.names with
    ⟨texts, htexts⟩ | ⟨before, name, after, texts, hnames, htexts, hname⟩
  · by_cases hclosed : r.Closed
    · exact .inl ⟨hclosed, texts, htexts⟩
    · exact .inr ⟨_, r.names, texts, htexts, .inr ⟨rfl, hclosed, rfl⟩⟩
  · exact .inr ⟨_, before, texts, htexts, .inl ⟨name, after, hnames, hname, rfl⟩⟩

theorem fill_eq (h : Reads url.toList r) (values : Json) :
    (∃ texts, r.Closed ∧ Forall₂ (Fills values) r.names texts
        ∧ fill url values = .ok (String.ofList (r.woven texts)))
      ∨ ∃ fault, r.FirstFault url values fault ∧ fill url values = .error fault := by
  unfold fill
  rcases closed_or_firstFault r url values with ⟨hclosed, texts, htexts⟩ | ⟨fault, hfault⟩
  · refine .inl ⟨texts, hclosed, htexts, ?_⟩
    rw [fillFrom_closed h hclosed htexts]
    rfl
  · refine .inr ⟨fault, hfault, ?_⟩
    rw [fillFrom_fault h hfault]
    rfl

/-- A placeholder takes at least two characters, so there are not too many of them. -/
theorem Reads.names_length (h : Reads cs r) : 2 * r.names.length ≤ cs.length := by
  induction h with
  | last _ => exact Nat.zero_le _
  | unclosed _ _ => exact Nat.zero_le _
  | hole _ _ _ ih =>
    simp only [Reading.names, List.length_cons, List.length_append]
    omega

/-- **A url is filled in one pass.**  There is one reading of it, with at most half as many
placeholders as there are characters.  Filling succeeds exactly if every brace is closed and every
name stands for a text, and then the result is the literals with the texts between them.  Otherwise
it fails, with what is wrong with the first placeholder that is not so. -/
theorem fills_in_one_pass (url : String) (values : Json) :
    ∃ r, Reads url.toList r ∧ (∀ r', Reads url.toList r' → r' = r)
      ∧ 2 * r.names.length ≤ url.length
      ∧ ((∃ out, fill url values = .ok out)
        ↔ r.Closed ∧ ∀ name ∈ r.names, ∃ text, Fills values name text)
      ∧ (∀ out, fill url values = .ok out ↔ r.Closed
        ∧ ∃ texts, Forall₂ (Fills values) r.names texts ∧ String.ofList (r.woven texts) = out)
      ∧ ∀ fault, fill url values = .error fault ↔ r.FirstFault url values fault := by
  obtain ⟨r, hr, hunique⟩ := exists_unique_reading url.toList
  have hok (out : String) : fill url values = .ok out ↔ r.Closed
      ∧ ∃ texts, Forall₂ (Fills values) r.names texts ∧ String.ofList (r.woven texts) = out := by
    constructor
    · intro hout
      rcases fill_eq hr values with ⟨texts, hclosed, htexts, hfill⟩ | ⟨fault, -, hfill⟩
      · exact ⟨hclosed, texts, htexts, Except.ok.inj (hfill.symm.trans hout)⟩
      · exact absurd (hfill.symm.trans hout) nofun
    · rintro ⟨hclosed, texts, htexts, rfl⟩
      unfold fill
      rw [fillFrom_closed hr hclosed htexts]
      rfl
  have herror (fault : UrlFault) :
      fill url values = .error fault ↔ r.FirstFault url values fault := by
    constructor
    · intro hfault
      rcases fill_eq hr values with ⟨texts, -, -, hfill⟩ | ⟨first, hfirst, hfill⟩
      · exact absurd (hfill.symm.trans hfault) nofun
      · exact Except.error.inj (hfill.symm.trans hfault) ▸ hfirst
    · intro hfault
      unfold fill
      rw [fillFrom_fault hr hfault]
      rfl
  refine ⟨r, hr, hunique, hr.names_length, ?_, hok, herror⟩
  constructor
  · rintro ⟨out, hout⟩
    obtain ⟨hclosed, texts, htexts, -⟩ := (hok out).mp hout
    exact ⟨hclosed, exists_of_forall₂ htexts⟩
  · rintro ⟨hclosed, hnames⟩
    obtain ⟨texts, htexts⟩ := forall₂_of_forall_exists hnames
    exact ⟨_, (hok _).mpr ⟨hclosed, texts, htexts, rfl⟩⟩

/-- A name may have an opening brace in it, and what it stands for may look like a placeholder;
neither is read again: the url is `/{a{b}}/{id}`, and it becomes `/{id}}/12`. -/
theorem fills_in_one_pass_for_braces :
    let url := "/" ++ Text.braced ("a" ++ Text.braced "b") ++ "/" ++ Text.braced "id"
    let name := ['a', opening, 'b']
    let values : Json := .object
      [(String.ofList name, .string (Text.braced "id")), ("id", .number (.int 12))]
    Reads url.toList (.hole ['/'] name (.hole [closing, '/'] ['i', 'd'] (.last [])))
      ∧ fill url values = .ok ("/" ++ Text.braced "id" ++ closing.toString ++ "/12") := by
  intro url name values
  have hreads : Reads url.toList
      (.hole ['/'] name (.hole [closing, '/'] ['i', 'd'] (.last []))) := by
    have htext : url.toList = ['/'] ++ opening :: (name
        ++ closing :: ([closing, '/'] ++ opening :: (['i', 'd'] ++ closing :: []))) := by decide
    rw [htext]
    exact .hole (by decide) (by decide) (.hole (by decide) (by decide) (.last (by decide)))
  obtain ⟨r, -, hunique, -, -, hok, -⟩ := fills_in_one_pass url values
  obtain rfl := hunique _ hreads
  refine ⟨hreads, (hok _).mpr ⟨trivial, [Text.braced "id", "12"], ?_, rfl⟩⟩
  exact .cons (.inl rfl) (.cons (.inr ⟨_, rfl, rfl⟩) .nil)

end UrlTemplate

end AccountSync
