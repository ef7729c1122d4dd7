import CallByValue.Proofs.Display.Colours
import CallByValue.Proofs.Source.Parse

/-!
# Printed terms are read back

A term is printed with all parentheses (`Term.toText`) or with few of them, with backslashes or with
lambdas.  If its names are lexable, each of these texts is read back as the same term.

The texts are put together from marks, names and spaces, and so are their tokens, as long as behind
every name stands something that separates (`Lexes`).  With all parentheses each part of a term is
an atom; in the notation with few of them the place of a part decides which phrase it is
(`Printer.Place.phrase`).

**Main theorem** (`Term.printed_forms_read_back`): lexable terms are read back, every parsed term is
lexable, and substitution, reduction and canonical naming keep terms lexable; so every term that is
reached from a source is read back from each of its printed forms.
-/

namespace CallByValue

/-! ### The tokens of texts that are put together -/

/-- The tokens of a text satisfy `P` wherever it stands before something that separates. -/
def Lexes (P : List Token → Prop) (s : Text) : Prop :=
  ∀ pos rest, Separated rest → ∃ ts pos',
    (⟨pos, s ++ rest⟩ : Lexer).tokens = ts ++ (⟨pos', rest⟩ : Lexer).tokens ∧ P ts

namespace Lexes

variable {P Q : List Token → Prop} {s u w : Text} {x : Name}

theorem imp (hPQ : ∀ ts, P ts → Q ts) (h : Lexes P s) : Lexes Q s := by
  intro pos rest hrest
  obtain ⟨ts, pos', htoks, hts⟩ := h pos rest hrest
  exact ⟨ts, pos', htoks, hPQ ts hts⟩

theorem nil (h : P []) : Lexes P [] := by
  intro pos rest _
  exact ⟨[], pos, rfl, h⟩

theorem append (hne : u ≠ []) (hu : Separated u)
    (h : Lexes (fun ts => ∀ us, Q us → P (ts ++ us)) s) (h' : Lexes Q u) : Lexes P (s ++ u) := by
  intro pos rest hrest
  obtain ⟨ts, pos₁, htoks, hts⟩ := h pos (u ++ rest) (separated_append hne hu rest)
  obtain ⟨us, pos₂, hutoks, hus⟩ := h' pos₁ rest hrest
  refine ⟨ts ++ us, pos₂, ?_, hts us hus⟩
  rw [List.append_assoc, htoks, hutoks, List.append_assoc]

theorem space_cons (h : Lexes P s) : Lexes P (utf8 " " ++ s) := by
  intro pos rest hrest
  obtain ⟨ts, pos', htoks, hts⟩ := h (pos + 1) rest hrest
  refine ⟨ts, pos', ?_, hts⟩
  rw [List.append_assoc, Lexer.tokens_space, htoks]

theorem mark_cons (c : Char) (hw : w = String.utf8EncodeChar c) (hc : c ∈ marks) (hhash : c ≠ '#')
    (h : Lexes (fun ts => ∀ m : Token, m.kind = glyphKind (.char c) → P (m :: ts)) s) :
    Lexes P (w ++ s) := by
  intro pos rest hrest
  obtain ⟨ts, pos', htoks, hts⟩ := h (pos + w.length) rest hrest
  refine ⟨⟨glyphKind (.char c), w, pos⟩ :: ts, pos', ?_, hts _ rfl⟩
  rw [List.append_assoc, Lexer.tokens_mark c pos hw hc hhash, htoks, List.cons_append]

theorem name (hx : x.Lexable) (h : ∀ n : Token, n.kind = .identifier → n.text = x → P [n]) :
    Lexes P x := by
  intro pos rest hrest
  exact ⟨[_], _, Lexer.tokens_name pos hx hrest, h _ rfl rfl⟩

theorem name_cons (hx : x.Lexable) (hne : s ≠ []) (hs : Separated s)
    (h : Lexes (fun ts => ∀ n : Token, n.kind = .identifier → n.text = x → P (n :: ts)) s) :
    Lexes P (x ++ s) := by
  refine append hne hs (name hx ?_) h
  intro n hkind htext us hus
  exact hus n hkind htext

end Lexes

/-! ### The phrases of printed terms -/

section Phrases

variable {s u w : Text} {t b f a : Term} {x : Name}

theorem lexes_var (hx : x.Lexable) : Lexes (Derives .atom · (.var x)) x :=
  .name hx fun _ hn htext => htext ▸ .var hn

theorem lexes_paren (h : Lexes (Derives .term · t) s) :
    Lexes (Derives .atom · t) (utf8 "(" ++ s ++ utf8 ")") := by
  have hclose : Lexes (fun us => ∃ r : Token, r.kind = .rightParen ∧ us = [r]) (utf8 ")") := by
    rw [← List.append_nil (utf8 ")")]
    refine .mark_cons ')' rfl (by decide) (by decide) (.nil ?_)
    exact fun r hr => ⟨r, hr, rfl⟩
  rw [List.append_assoc]
  refine .mark_cons '(' rfl (by decide) (by decide) ?_
  refine .append (by decide) (by decide) (h.imp ?_) hclose
  rintro ts hts us ⟨r, hr, rfl⟩ l hl
  exact .paren hl hts hr

theorem lexes_app (hf : Lexes (Derives .apps · f) s) (ha : Lexes (Derives .atom · a) u) :
    Lexes (Derives .apps · (.app f a)) (s ++ (utf8 " " ++ u)) :=
  .append (by simp [utf8]) (separated_append (by decide) (by decide) u)
    (hf.imp fun _ hts _ hus => .arg hts hus) ha.space_cons

theorem lexes_colon (hx : x.Lexable) (hb : Lexes (Derives .term · b) s) :
    Lexes (Derives .tail · (.abs x b)) (x ++ (utf8 ":" ++ (utf8 " " ++ s))) := by
  refine .name_cons hx (by simp [utf8]) (separated_append (by decide) (by decide) _) ?_
  refine .mark_cons ':' rfl (by decide) (by decide) (.space_cons (hb.imp ?_))
  rintro ts hts c hc n hn rfl
  exact .colon hn hc hts

/-- What follows a parameter of a lambda: further parameters and the body. -/
def AfterParam (t : Term) (ts : List Token) : Prop :=
  ∀ n : Token, n.kind = .identifier → Derives .params (n :: ts) (.abs n.text t)

theorem lexes_body (hb : Lexes (Derives .term · b) s) :
    Lexes (AfterParam b) (utf8 "." ++ (utf8 " " ++ s)) := by
  refine .mark_cons '.' rfl (by decide) (by decide) (.space_cons (hb.imp ?_))
  intro ts hts d hd n hn
  exact .lastParam hn hd hts

theorem lexes_param (hx : x.Lexable) (hne : s ≠ []) (hs : Separated s)
    (hb : Lexes (AfterParam b) s) : Lexes (AfterParam (.abs x b)) (utf8 " " ++ (x ++ s)) := by
  refine .space_cons (.name_cons hx hne hs (hb.imp ?_))
  rintro ts hts n hn rfl m hm
  exact .param hm (hts n hn)

theorem lexes_lambda (c : Char) (hw : w = String.utf8EncodeChar c) (hc : c ∈ ['\\', 'λ'])
    (hx : x.Lexable) (hne : s ≠ []) (hs : Separated s) (hb : Lexes (AfterParam b) s) :
    Lexes (Derives .tail · (.abs x b)) (w ++ (x ++ s)) := by
  have hmark : ∀ c ∈ ['\\', 'λ'], c ∈ marks ∧ c ≠ '#' ∧ glyphKind (.char c) = .lambda :=
    List.forall_iff_forall_mem.1 (by decide)
  obtain ⟨hmem, hhash, hkind⟩ := hmark c hc
  refine .mark_cons c hw hmem hhash (.name_cons hx hne hs (hb.imp ?_))
  rintro ts hts n hn rfl l hl
  exact .lambda (hl.trans hkind) (hts n hn)

end Phrases

/-! ### Terms with all parentheses -/

theorem Term.Lexable.lexes_toText {t : Term} (ht : t.Lexable) :
    Lexes (Derives .atom · t) t.toText := by
  induction t with
  | var x => exact lexes_var ht
  | abs x b ih =>
    have hcolon : utf8 ": " = utf8 ":" ++ utf8 " " := rfl
    have hb := (ih ht.2).imp fun _ hts => Derives.ofApps (.single hts)
    have h := lexes_paren ((lexes_colon ht.1 hb).imp fun _ hts => .ofTail hts)
    simpa only [toText, hcolon, List.append_assoc] using h
  | app f a ihf iha =>
    have hf := (ihf ht.1).imp fun _ hts => Derives.single hts
    have h := lexes_paren ((lexes_app hf (iha ht.2)).imp fun _ hts => .ofApps hts)
    simpa only [toText, List.append_assoc] using h

/-! ### Terms with few parentheses -/

namespace Printer

/-- The phrase that a term is at a place. -/
def Place.phrase (t : Term) : Place → List Token → Prop
  | .top => (Derives .term · t)
  | .fn => (Derives .apps · t)
  | .arg => (Derives .atom · t)
  | .body => AfterParam t

/-- What pieces write without colours. -/
def bareText (ps : List Piece) : Text := ps.flatMap Piece.bare

@[simp] theorem bareText_nil : bareText [] = [] := rfl

@[simp] theorem bareText_cons (p : Piece) (ps : List Piece) :
    bareText (p :: ps) = p.bare ++ bareText ps := rfl

@[simp] theorem bareText_append (ps qs : List Piece) :
    bareText (ps ++ qs) = bareText ps ++ bareText qs := List.flatMap_append ..

theorem print_plain (pr : Printer) (t : Term) :
    pr.print .plain t = bareText (pr.layout .top [] t) := by
  rw [print, pieces_eq_layout]
  exact congrArg (List.flatMap · _) (funext Piece.render_plain)

variable {t : Term} {ps : List Piece}

theorem lexes_of_atom (place : Place) (h : Lexes (Derives .atom · t) (bareText ps)) :
    Lexes (place.phrase t) (bareText (bodyStart place ++ ps)) := by
  have hterm := h.imp fun _ hts => Derives.ofApps (.single hts)
  cases place with
  | top => exact hterm
  | fn => exact h.imp fun _ hts => .single hts
  | arg => exact h
  | body => exact lexes_body hterm

theorem lexes_of_apps (place : Place) (h : Lexes (Derives .apps · t) (bareText ps)) :
    Lexes (place.phrase t) (bareText (bodyStart place ++ parenthesised (place == .arg) ps)) := by
  have hterm := h.imp fun _ hts => Derives.ofApps hts
  cases place with
  | top => exact hterm
  | fn => exact h
  | arg => simpa [parenthesised, bodyStart, mark, Piece.bare, Place.phrase] using lexes_paren hterm
  | body => exact lexes_body hterm

theorem lexes_of_tail {place : Place} (hplace : place ≠ .body)
    (h : Lexes (Derives .tail · t) (bareText ps)) :
    Lexes (place.phrase t) (bareText (parenthesised (place != .top) ps)) := by
  have hterm := h.imp fun _ hts => Derives.ofTail hts
  have hatom := lexes_paren hterm
  have hparen : bareText (parenthesised true ps) = utf8 "(" ++ bareText ps ++ utf8 ")" := by
    simp [parenthesised, mark, Piece.bare]
  cases place with
  | top => exact hterm
  | fn => exact hparen ▸ hatom.imp fun _ hts => .single hts
  | arg => exact hparen ▸ hatom
  | body => exact absurd rfl hplace

/-- Behind a parameter stands a space or a dot. -/
theorem separated_layout_body (pr : Printer) (bound : List Name) (t : Term) :
    bareText (pr.layout .body bound t) ≠ [] ∧ Separated (bareText (pr.layout .body bound t)) := by
  have hmark : ∀ w ∈ [utf8 " ", utf8 "."], ∀ s, w ++ s ≠ [] ∧ Separated (w ++ s) := by
    intro w hw s
    have hsep : ∀ w ∈ [utf8 " ", utf8 "."], w ≠ [] ∧ Separated w := by decide
    exact ⟨by simp [(hsep w hw).1], separated_append (hsep w hw).1 (hsep w hw).2 s⟩
  cases t with
  | var x => exact hmark (utf8 ".") (by simp) _
  | abs x b => exact hmark (utf8 " ") (by simp) _
  | app f a => exact hmark (utf8 ".") (by simp) _

theorem lexes_layout {pr : Printer} {c : Char} (hpr : pr.lambda = String.utf8EncodeChar c)
    (hc : c ∈ ['\\', 'λ']) (ht : t.Lexable) (place : Place) (bound : List Name) :
    Lexes (place.phrase t) (bareText (pr.layout place bound t)) := by
  induction t generalizing place bound with
  | var x =>
    rw [layout]
    refine lexes_of_atom place ?_
    rw [bareText_cons, bareText_nil, List.append_nil]
    exact lexes_var ht
  | abs x b ih =>
    -- the body decides by itself whether it is a further parameter or stands behind a dot
    have hb := ih ht.2 .body (x :: bound)
    obtain ⟨hne, hsep⟩ := separated_layout_body pr (x :: bound) b
    by_cases hplace : place = .body
    · rw [hplace, layout]
      exact lexes_param ht.1 hne hsep hb
    · rw [layout]
      · exact lexes_of_tail hplace (lexes_lambda c hpr hc ht.1 hne hsep hb)
      · exact hplace
  | app f a ihf iha =>
    rw [layout]
    refine lexes_of_apps place ?_
    rw [bareText_append, bareText_cons]
    exact lexes_app (ihf ht.1 .fn bound) (iha ht.2 .arg bound)

end Printer

/-! ### Parsed terms -/

theorem Derives.lexable {p : Phrase} {ts : List Token} {t : Term} (h : Derives p ts t)
    (hts : ∀ tok ∈ ts, tok.kind = .identifier → Name.Lexable tok.text) : t.Lexable := by
  induction h with
  | var hx => exact hts _ (by simp) hx
  | paren _ _ _ ih => exact ih fun tok htok => hts tok (by simp [htok])
  | single _ ih | ofTail _ ih | ofApps _ ih => exact ih hts
  | arg _ _ ihf iha | lastArg _ _ ihf iha =>
    exact ⟨ihf fun tok htok => hts tok (by simp [htok]),
      iha fun tok htok => hts tok (by simp [htok])⟩
  | colon hx _ _ ih | lastParam hx _ _ ih | param hx _ ih =>
    exact ⟨hts _ (by simp) hx, ih fun tok htok => hts tok (by simp [htok])⟩
  | lambda _ _ ih | letIn _ _ ih | body _ _ ih | bodyAfterSemicolon _ _ _ ih | nextBinding _ _ ih =>
    exact ih fun tok htok => hts tok (by simp [htok])
  | binding hx _ _ _ ihv ihb =>
    exact ⟨⟨hts _ (by simp) hx, ihb fun tok htok => hts tok (by simp [htok])⟩,
      ihv fun tok htok => hts tok (by simp [htok])⟩

namespace Term

theorem lexable_of_parse {s : Text} {t : Term} (h : Term.parse s = .ok t) : t.Lexable :=
  (parse_eq_ok_iff.1 h).lexable fun _ => Lexer.lexable_of_mem_tokens

theorem parse_of_lexes {s : Text} {t : Term} (h : Lexes (Derives .term · t) s) :
    Term.parse s = .ok t := by
  obtain ⟨ts, pos, htoks, hts⟩ := h 0 [] separated_nil
  rw [List.append_nil, Lexer.tokens_nil, List.append_nil] at htoks
  rw [parse_eq_ok_iff, Lexer.ofText, htoks]
  exact hts

/-- Each printed form of a term is read back as the term. -/
structure ReadsBack (t : Term) : Prop where
  /-- The form with all parentheses. -/
  toText : Term.parse t.toText = .ok t
  /-- The form with few parentheses and backslashes. -/
  plain : Term.parse t.plain = .ok t
  /-- The form with few parentheses and lambdas. -/
  unicode : Term.parse (Printer.unicode.print .plain t) = .ok t

theorem Lexable.readsBack {t : Term} (ht : t.Lexable) : t.ReadsBack where
  toText := parse_of_lexes (ht.lexes_toText.imp fun _ hts => .ofApps (.single hts))
  plain := by
    rw [plain, Printer.print_plain]
    exact parse_of_lexes (Printer.lexes_layout (c := '\\') rfl (by decide) ht .top [])
  unicode := by
    rw [Printer.print_plain]
    exact parse_of_lexes (Printer.lexes_layout (c := 'λ') rfl (by decide) ht .top [])

/-- **Printing and parsing are inverse on what a source can reach.**  The lexable names are those
that the lexer yields as one identifier.  Lexable terms are read back from each printed form, parsed
terms are lexable, and substitution, reduction and canonical naming keep terms lexable, so every term
that a parsed one reduces to is read back. -/
theorem printed_forms_read_back :
    (∀ x : Name, x.Lexable ↔ (Lexer.ofText x).tokens = [⟨.identifier, x, 0⟩]) ∧
    (∀ t : Term, t.Lexable → t.ReadsBack) ∧
    (∀ s t, Term.parse s = .ok t → t.Lexable) ∧
    (∀ (t r : Term) (x : Name), t.Lexable → r.Lexable → (t.subst r x).Lexable) ∧
    (∀ t u : Term, t.Lexable → t.reduce = some u → u.Lexable) ∧
    (∀ t : Term, t.Lexable → t.canonical.Lexable) ∧
    (∀ s t u, Term.parse s = .ok t → t.Reduces u → u.ReadsBack) := by
  refine ⟨fun x => ⟨fun hx => ?_, fun h => ?_⟩, fun t ht => ht.readsBack,
    fun s t => lexable_of_parse, fun t r x ht hr => ht.subst hr x, fun t u ht => ht.reduce,
    fun t ht => ht.canonical, ?_⟩
  · have htoks := Lexer.tokens_name 0 hx separated_nil
    rwa [List.append_nil, Lexer.tokens_nil] at htoks
  · exact Lexer.lexable_of_mem_tokens (h ▸ List.mem_singleton_self _) rfl
  · intro s t u hparse hred
    exact ((lexable_of_parse hparse).of_reduces hred).readsBack

/-- A step that renames a binder, in a source with a stray byte for a name. -/
theorem renamed_step_reads_back :
    let s := utf8 "(\\x " ++ [0xff] ++ utf8 ". x " ++ [0xff] ++ utf8 ") z: " ++ [0xff]
    let arg := Term.abs (utf8 "z") (.var [0xff])
    let t := Term.app (.abs (utf8 "x") (.abs [0xff] (.app (.var (utf8 "x")) (.var [0xff])))) arg
    let u := Term.abs (utf8 "v1") (.app arg (.var (utf8 "v1")))
    (Term.parse s = .ok t ∧ t.reduce = some u ∧ u.ReadsBack) ∧ t.Lexable ∧ t.ReadsBack := by
  intro s arg t u
  have hparse : Term.parse s = .ok t := by decide +kernel
  have hstep : t.reduce = some u := by decide +kernel
  have hlex : t.Lexable := by decide +kernel
  obtain ⟨-, hback, -, -, -, -, hreached⟩ := printed_forms_read_back
  exact ⟨⟨hparse, hstep, hreached s t u hparse (.single hstep)⟩, hlex, hback t hlex⟩

end Term

end CallByValue
