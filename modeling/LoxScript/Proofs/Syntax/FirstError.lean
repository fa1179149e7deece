import LoxScript.Proofs.Syntax.Completion
import LoxScript.Proofs.Syntax.Lookahead
import LoxScript.Proofs.Syntax.Order

/-!
# The first error that stops reading

Among the errors in a list of tokens, the first that stops reading is at the right token: what stands before
it is the beginning of a readable text, and with the token it is not. So nothing was wrong before, and
something is wrong now, whatever follows. Where the error is at the end of the script, the tokens are the
beginning of a readable text and not a whole one. Without an error of this sort the tokens are readable.

A text is readable if the rules of the grammar allow it, whatever faults they find with it.

## Main definitions

* `Grammar.Readable`, `Grammar.Viable`: the readable texts and their beginnings.
* `Parser.FirstStop`: where reading stops first.

## Main statements

* `Program.ofTokens_firstError`: the first error that stops reading, and what it means if there is none.
-/

namespace LoxScript

namespace Grammar

/-- The text consists of statements and declarations, with or without faults. -/
def Readable (w : List Token) : Prop := ∃ p faults, Block false w p faults

/-- The text is the beginning of a readable one. -/
def Viable (w : List Token) : Prop := ∃ v, Readable (w ++ v)

variable {w v : List Token}

theorem readable_nil : Readable [] := ⟨[], [], .nil⟩

theorem Declaration.readable_append {dangling : Bool} {s : Stmt} {faults : List SyntaxError}
    (hs : Declaration false dangling w s faults) (hv : Readable v) : Readable (w ++ v) := by
  obtain ⟨p, more, hp⟩ := hv
  exact ⟨s :: p, faults ++ more, .cons hs hp⟩

/-- From a readable text a declaration is read, and what is left is readable again. -/
theorem Readable.declaration_eq_ok (h : Readable w) (hw : w ≠ []) (ending : Token) {bound : Nat}
    (hbound : w.length ≤ bound) : ∃ reports rest s,
      Parser.declaration bound ⟨ending, false⟩ w = ⟨reports, rest, .ok s⟩ ∧ Readable rest := by
  obtain ⟨p, faults, h⟩ := h
  cases h with
  | nil => exact absurd rfl hw
  | @cons _ dangling w v s ss faults more hs hss =>
    rw [List.length_append] at hbound
    have hnext : NoElse dangling (v ++ []) := hss.noElse (by simp [NoElse])
    rw [List.append_nil] at hnext
    exact ⟨faults, v, s, hs.read rfl (by omega) hnext, ss, more, hss⟩

end Grammar

namespace Parser

open Grammar

variable {ending : Token} {ts rest : List Token} {e : SyntaxError}

/-- `FirstStop ending ts rest e`: when `ts` is read declaration by declaration, the first error that stops
one is `e`, and then the tokens `rest` are left. -/
inductive FirstStop (ending : Token) : (ts rest : List Token) → (e : SyntaxError) → Prop where
  | here {ts rest : List Token} {reports : List SyntaxError} {e : SyntaxError} (hts : ts ≠ [])
      (hread : declaration ts.length ⟨ending, false⟩ ts = ⟨reports, rest, .error e⟩) :
      FirstStop ending ts rest e
  | later {ts mid rest : List Token} {reports : List SyntaxError} {s : Stmt} {e : SyntaxError}
      (hts : ts ≠ []) (hread : declaration ts.length ⟨ending, false⟩ ts = ⟨reports, mid, .ok s⟩)
      (hmid : FirstStop ending mid rest e) : FirstStop ending ts rest e

namespace FirstStop

theorem suffix (h : FirstStop ending ts rest e) : rest <:+ ts := by
  induction h with
  | @here ts rest reports e _ hread =>
    have hrest := (orderly_item ts.length true ⟨ending, false⟩ ts).rest
    rwa [← declaration, hread] at hrest
  | @later ts mid rest reports s e _ hread _ ih =>
    have hmid := (orderly_item ts.length true ⟨ending, false⟩ ts).rest
    rw [← declaration, hread] at hmid
    exact ih.trans hmid

variable (hending : ending.kind = .endOfInput)

include hending

/-- What comes before the error can be completed, and the error blames what comes next. -/
theorem viable (h : FirstStop ending ts rest e) :
    (∃ what, e = ⟨.expected what, rest.head?.getD ending⟩) ∧
      ∃ begun, ts = begun ++ rest ∧ Viable begun := by
  induction h with
  | here _ hread =>
    obtain ⟨herror, begun, v, hts, dangling, s, faults, hv⟩ := (item_completes _).2 hending hread
    refine ⟨herror, begun, hts, v, ?_⟩
    rw [← List.append_nil (begun ++ v)]
    exact hv.readable_append readable_nil
  | later _ hread _ ih =>
    obtain ⟨herror, begun, rfl, v, hv⟩ := ih
    obtain ⟨w, dangling, rfl, hw, -⟩ := (item_reads _).2 hending hread
    refine ⟨herror, w ++ begun, by simp, v, ?_⟩
    rw [List.append_assoc]
    exact hw.readable_append hv

/-- Where the next token is the same, reading stops with the same error, so no text that goes on with it is
readable. -/
theorem not_readable (h : FirstStop ending ts rest e) {begun : List Token} (hts : ts = begun ++ rest)
    (rest' : List Token) (hhead : rest'.head? = rest.head?) : ¬ Readable (begun ++ rest') := by
  intro hreadable
  have hne {w v v' : List Token} (hne : w ++ v ≠ []) (hhead : v'.head? = v.head?) : w ++ v' ≠ [] := by
    intro hnil
    obtain ⟨rfl, rfl⟩ := List.append_eq_nil_iff.1 hnil
    exact hne (by simpa using hhead.symm)
  induction h generalizing begun with
  | @here ts rest reports e hnil hread =>
    subst hts
    obtain ⟨_, _, _, hok, -⟩ := hreadable.declaration_eq_ok (hne hnil hhead) ending
      (Nat.le_add_left _ (begun ++ rest).length)
    rw [declaration_eq_of_head?_eq hending (Nat.le_refl _) (Nat.le_add_right _ _) hread hhead] at hok
    cases hok
  | @later ts mid rest reports s e hnil hread hmid ih =>
    obtain ⟨w, _, rfl, -, -⟩ := (item_reads _).2 hending hread
    obtain ⟨others, rfl⟩ := hmid.suffix
    -- the first declaration is the same in both lists
    rw [← List.append_assoc] at hts
    obtain rfl : w ++ others = begun := List.append_cancel_right hts
    have hhead' : (others ++ rest').head? = (others ++ rest).head? := head?_append_congr hhead
    rw [List.append_assoc] at hreadable
    obtain ⟨_, _, _, hok, hrest⟩ := hreadable.declaration_eq_ok (hne hnil hhead') ending
      (Nat.le_add_left _ (w ++ (others ++ rest)).length)
    rw [declaration_eq_of_head?_eq hending (Nat.le_refl _) (Nat.le_add_right _ _) hread hhead'] at hok
    cases hok
    exact ih rfl hhead hrest

end FirstStop

/-- The list of errors up to the first one that stops reading, or else all of it. -/
theorem readWithin_firstStop (hending : ending.kind = .endOfInput) {bound : Nat}
    (hbound : ts.length ≤ bound) :
    (∃ rest e reports others, FirstStop ending ts rest e ∧
        (readWithin ending bound ts).errors = reports ++ e :: others ∧
        ∀ r ∈ reports, Harmless r.problem) ∨
      (∀ r ∈ (readWithin ending bound ts).errors, Harmless r.problem) ∧ Readable ts := by
  induction bound generalizing ts with
  | zero =>
    obtain rfl : ts = [] := by simpa using hbound
    exact .inr ⟨List.forall_mem_nil _, readable_nil⟩
  | succ bound ih =>
    by_cases hts : ts = []
    · subst hts
      rw [readWithin_nil]
      exact .inr ⟨List.forall_mem_nil _, readable_nil⟩
    -- whatever a declaration reports before it stops or ends does not stop reading
    obtain ⟨-, -, findings, hreports, hfindings, -⟩ := orderly_item ts.length true ⟨ending, false⟩ ts
    have hharmless : ∀ r ∈ (declaration ts.length ⟨ending, false⟩ ts).reports, Harmless r.problem := by
      rw [declaration, hreports]
      intro r hr
      obtain ⟨p, hp, rfl⟩ := List.mem_map.1 hr
      exact (hfindings p hp).2.2
    rcases hread : declaration ts.length ⟨ending, false⟩ ts with ⟨reports, rest, e | s⟩ <;>
      rw [hread] at hharmless
    · rw [readWithin_of_error hts hread]
      exact .inl ⟨rest, e, reports, _, .here hts hread, rfl, hharmless⟩
    · rw [readWithin_of_ok hts hread]
      obtain ⟨w, dangling, rfl, hw, -⟩ := (item_reads _).2 hending hread
      have hpos := List.length_pos_iff.2 hw.ne_nil
      rw [List.length_append] at hbound
      have hshort : rest.length ≤ bound := by omega
      rcases ih hshort with ⟨last, e, more, others, hstop, herrors, hmore⟩ |
        ⟨herrors, hrest⟩
      · refine .inl ⟨last, e, reports ++ more, others, .later hts hread hstop, by simp [herrors], ?_⟩
        exact List.forall_mem_append.2 ⟨hharmless, hmore⟩
      · exact .inr ⟨List.forall_mem_append.2 ⟨hharmless, herrors⟩, hw.readable_append hrest⟩

end Parser

open LoxScript.Grammar LoxScript.Parser

namespace Program

/-- In a rejected list of tokens, the first error that stops reading is at the first token with which the
tokens are no longer the beginning of a readable text. At the end of the script, the tokens are the
beginning of a readable text but not all of one. Where there is no such error, the tokens are readable. -/
theorem ofTokens_firstError (ts : List Token) :
    (∀ errors e, ofTokens ts = .error errors → errors.find? (·.problem.stops) = some e →
      ∃ begun rest, Token.content ts = begun ++ rest ∧
        FirstStop (Token.endingOf ts) (Token.content ts) rest e ∧
        e.token = rest.head?.getD (Token.endingOf ts) ∧ Viable begun ∧
        (∀ t ∈ rest.head?, ¬ Viable (begun ++ [t])) ∧ (rest = [] → ¬ Readable begun)) ∧
    ((∀ errors, ofTokens ts = .error errors → ∀ e ∈ errors, ¬ e.problem.stops) →
      Readable (Token.content ts)) := by
  have hending := Token.endingOf_kind ts
  -- either there is an error that stops reading, and it is in the list, or there is none
  rcases readWithin_firstStop hending (Nat.le_refl (Token.content ts).length) with
    ⟨rest, e, reports, others, hstop, herrors, hreports⟩ | ⟨hharmless, hreadable⟩
  · obtain ⟨⟨what, he⟩, begun, hts, hviable⟩ := hstop.viable hending
    have hstops : e.problem.stops = true := congrArg (·.problem.stops) he
    have hnone : reports.find? (·.problem.stops) = none :=
      List.find?_eq_none.2 fun r hr => Bool.not_eq_true _ ▸ hreports r hr
    refine ⟨fun errors e' h hfind => ?_, fun h => ?_⟩
    · obtain rfl := (ofTokens_eq_error_iff.1 h).1
      rw [Parser.read, herrors] at hfind
      obtain rfl : e = e' := by simpa [hnone, hstops] using hfind
      refine ⟨begun, rest, hts, hstop, by rw [he], hviable, fun t ht hnext => ?_, ?_⟩
      · obtain ⟨v, hv⟩ := hnext
        rw [List.append_assoc] at hv
        exact hstop.not_readable hending hts (t :: v) ht.symm hv
      · rintro rfl
        simpa using hstop.not_readable hending hts [] rfl
    · have hmem : e ∈ reports ++ e :: others := by simp
      exact absurd hstops (h _ (ofTokens_eq_error_iff.2 ⟨herrors, by simp⟩) e hmem)
  · refine ⟨fun errors e h hfind => ?_, fun _ => hreadable⟩
    obtain rfl := (ofTokens_eq_error_iff.1 h).1
    have hstops := List.find?_some hfind
    rw [hharmless e (List.mem_of_find?_eq_some hfind)] at hstops
    cases hstops

/-- A `print` without a value is the beginning of a program, until its semicolon comes. -/
theorem ofTokens_firstError_print :
    let semi : Token := ⟨.semicolon, ";", 1⟩
    let keyword : Token := ⟨.keyword .print, "print", 1⟩
    ofTokens [keyword, semi, Token.ending 1] = .error [⟨.expected .expression, semi⟩] ∧
      Viable [keyword] ∧ ¬ Viable [keyword, semi] := by
  intro semi keyword
  have hread : (Parser.read (Token.endingOf [keyword, semi, Token.ending 1])
      (Token.content [keyword, semi, Token.ending 1])).errors = [⟨.expected .expression, semi⟩] := by
    decide +kernel
  have h := ofTokens_eq_error_iff.2 ⟨hread, List.cons_ne_nil _ _⟩
  obtain ⟨begun, rest, hts, -, htoken, hviable, hnot, -⟩ :=
    (ofTokens_firstError [keyword, semi, Token.ending 1]).1 _ _ h rfl
  replace hts : [keyword, semi] = begun ++ rest := hts
  -- only one of the three ways to split the tokens has the semicolon next
  obtain ⟨rfl, rfl⟩ : begun = [keyword] ∧ rest = [semi] := by
    rcases begun with - | ⟨t, - | ⟨u, begun⟩⟩
    · obtain rfl : rest = [keyword, semi] := hts.symm
      cases htoken
    · simpa [eq_comm] using hts
    · obtain rfl : rest = [] := by simp at hts; exact hts.2.2.2
      cases htoken
  exact ⟨h, hviable, hnot semi rfl⟩

end Program

end LoxScript
