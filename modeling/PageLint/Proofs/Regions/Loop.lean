import Mathlib.Data.List.Induction
import PageLint.Proofs.Modes
import PageLint.Proofs.Regions.Chunks

/-!
# Inside and outside scripts

The loop over a page is inside a script exactly when the next token stands behind the opening tag
of a script and not behind its end. A turn of the loop takes a closing tag of a script only when it
is the next token, and nothing with it.

* `InScript` — behind the opening tag of a script, before its end
* `Progress.Reaches` — the turns of the loop lead from one state to another
* `Progress.turn?_taken` — what a turn takes
* `Progress.Reaches.inScript` — where the loop is inside a script
-/

namespace PageLint

/-- Behind these tokens a script is open: one of them opens it, and none behind that closes it. -/
def InScript (before : List Token) : Prop :=
  ∃ outside opening inside, before = outside ++ opening :: inside ∧
    opening.kind = .scriptOpen ∧ ∀ t ∈ inside, t.kind ≠ .scriptClose

theorem modeAfter_append (mode : Mode) (ts us : List Token) :
    modeAfter mode (ts ++ us) = modeAfter (modeAfter mode ts) us :=
  List.foldl_append

theorem modeAfter_script {ts : List Token} (h : ∀ t ∈ ts, t.kind ≠ .scriptClose) :
    modeAfter .script ts = .script := by
  induction ts with
  | nil => rfl
  | cons t ts ih =>
    have hafter : Mode.script.after (some t.kind) = .script := by
      have ht := h t List.mem_cons_self
      cases hk : t.kind <;> first | rfl | exact absurd hk ht
    show modeAfter (Mode.script.after (some t.kind)) ts = .script
    rw [hafter]
    exact ih fun u hu => h u (List.mem_cons_of_mem _ hu)

/-- The mode tells whether a script is open. -/
theorem modeAfter_eq_script_iff (before : List Token) :
    modeAfter .markup before = .script ↔ InScript before := by
  constructor
  · intro h
    induction before using List.reverseRecOn with
    | nil => simp [modeAfter] at h
    | append_singleton before t ih =>
      by_cases ho : t.kind = .scriptOpen
      · exact ⟨before, t, [], rfl, ho, by simp⟩
      rw [modeAfter_append] at h
      have hc : t.kind ≠ .scriptClose := by
        intro hc
        simp [modeAfter, Mode.after, hc] at h
      have hsame : modeAfter .markup before = .script := by
        revert h
        show (modeAfter .markup before).after (some t.kind) = .script → _
        cases hk : t.kind <;> first | exact id | exact absurd hk ho | exact absurd hk hc
      obtain ⟨outside, opening, inside, rfl, hopen, hinside⟩ := ih hsame
      refine ⟨outside, opening, inside ++ [t], by simp, hopen, ?_⟩
      intro u hu
      rcases List.mem_append.1 hu with hu | hu
      · exact hinside u hu
      · rw [List.mem_singleton.1 hu]
        exact hc
  · rintro ⟨outside, opening, inside, rfl, hopen, hinside⟩
    rw [modeAfter_append]
    show modeAfter ((modeAfter .markup outside).after (some opening.kind)) inside = .script
    rw [hopen]
    exact modeAfter_script hinside

/-! ## Turns of the loop -/

namespace Progress

/-- The turns of the loop over a page lead from one state, with the tokens that are left, to
another. -/
inductive Reaches (config : Config) (p : Progress) (ts : List Token) :
    Progress → List Token → Prop
  | start : Reaches config p ts p ts
  | turn {q q' : Progress} {t : Token} {us us' : List Token}
      (before : Reaches config p ts q (t :: us)) (ht : t.kind ≠ .eof)
      (hturn : q.turn? config t us = some (q', us')) : Reaches config p ts q' us'

section Turns

variable {config : Config} (hlimit : 1 ≤ config.maxExpressionTokens) {q q' : Progress} {t : Token}
  {us us' : List Token}

include hlimit

/-- A statement takes tokens of its script only. -/
theorem statement_taken (he : t.endsScript = false) {found : Harvest}
    (h : readStatement? config t us = some found) :
    ∃ taken, us = taken ++ found.rest ∧ Inside taken := by
  have hregion : Inside (t :: insideOf us) := by
    intro u hu
    rcases List.mem_cons.1 hu with rfl | hu
    · exact he
    · exact inside_insideOf us u hu
  have hstatement := readStatement?_before hlimit (ended_endOf us) hregion
  rw [insideOf_append_endOf, h] at hstatement
  generalize halone : readStatement? config t (insideOf us) = statement at hstatement
  cases hstatement with
  | some hbefore =>
    rename_i alone
    obtain ⟨taken, htaken⟩ := readStatement?_suffix_tail hlimit halone
    refine ⟨taken, ?_, ?_⟩
    · rw [hbefore.rest, ← List.append_assoc, htaken, insideOf_append_endOf]
    · intro u hu
      exact inside_insideOf us u (htaken ▸ List.mem_append_left _ hu)

/-- **What a turn takes**: the next token, and inside a script other tokens of the script. -/
theorem turn?_taken (ht : t.kind ≠ .eof) (h : q.turn? config t us = some (q', us')) :
    ∃ taken, us = taken ++ us' ∧ Inside taken ∧
      (taken = [] ∨ ∃ region, q.region = some region ∧ t.kind ≠ .scriptClose) := by
  unfold turn? at h
  split at h
  · obtain ⟨-, rfl⟩ := Prod.mk.inj (Option.some.inj h)
    exact ⟨[], rfl, inside_nil, Or.inl rfl⟩
  · rename_i region hregion
    split at h
    · obtain ⟨-, rfl⟩ := Prod.mk.inj (Option.some.inj h)
      exact ⟨[], rfl, inside_nil, Or.inl rfl⟩
    · rename_i hclose
      have hc : t.kind ≠ .scriptClose := by simpa using hclose
      obtain ⟨found, hfound, hnext⟩ := Option.map_eq_some_iff.1 h
      have hlt : found.rest.length < (t :: us).length :=
        Nat.lt_succ_of_le (readStatement?_suffix_tail hlimit hfound).length_le
      rw [if_pos hlt] at hnext
      obtain ⟨-, rfl⟩ := Prod.mk.inj hnext
      obtain ⟨taken, htaken, hinside⟩ :=
        statement_taken hlimit (by simp [Token.endsScript, ht, hc]) hfound
      exact ⟨taken, htaken, hinside, Or.inr ⟨region, hregion, hc⟩⟩

/-- A turn goes over to the mode behind the tokens that it takes. -/
theorem turn?_mode (ht : t.kind ≠ .eof) (h : q.turn? config t us = some (q', us')) {mode : Mode}
    (hmode : q.region.isSome = true ↔ mode = .script) : ∃ taken, us = taken ++ us' ∧
      (q'.region.isSome = true ↔ modeAfter mode (t :: taken) = .script) := by
  obtain ⟨taken, htaken, hinside, hcases⟩ := turn?_taken hlimit ht h
  refine ⟨taken, htaken, ?_⟩
  have hcons : modeAfter mode (t :: taken) = modeAfter (mode.after (some t.kind)) taken := rfl
  cases hregion : q.region with
  | none =>
    -- Outside scripts a turn takes one token, which may open a script.
    obtain rfl : taken = [] := hcases.resolve_right (by simp [hregion])
    obtain rfl : mode = .markup := by
      cases mode with
      | markup => rfl
      | script => simp [hregion] at hmode
    rw [turn?, hregion] at h
    obtain ⟨rfl, -⟩ := Prod.mk.inj (Option.some.inj h)
    rw [readMarkup_region config hregion]
    show _ ↔ Mode.markup.after (some t.kind) = .script
    cases hk : t.kind <;> simp [Mode.after]
  | some region =>
    obtain rfl : mode = .script := hmode.1 (by simp [hregion])
    by_cases hc : t.kind = .scriptClose
    · obtain rfl : taken = [] := by
        rcases hcases with rfl | ⟨_, -, hne⟩
        · rfl
        · exact absurd hc hne
      rw [turn?, hregion] at h
      simp only [hc, beq_self_eq_true, if_true, Option.some.injEq, Prod.mk.injEq] at h
      rw [← h.1, closeScript_region]
      simp [modeAfter, Mode.after, hc]
    · obtain ⟨more, hmore⟩ := turn?_region hregion hc h
      have hopen : ∀ u ∈ t :: taken, u.kind ≠ .scriptClose := by
        intro u hu
        rcases List.mem_cons.1 hu with rfl | hu
        · exact hc
        · intro hk
          have := hinside u hu
          simp [Token.endsScript, hk] at this
      rw [hmore, modeAfter_script hopen]
      simp

/-- **The loop is inside a script exactly when the next token is.** -/
theorem Reaches.inScript {p : Progress} (hp : p.region = none) {ts : List Token}
    (h : Reaches config p ts q us) :
    ∃ before, ts = before ++ us ∧ (q.region.isSome = true ↔ InScript before) := by
  suffices ∃ before, ts = before ++ us ∧
      (q.region.isSome = true ↔ modeAfter .markup before = .script) by
    obtain ⟨before, hts, hregion⟩ := this
    exact ⟨before, hts, hregion.trans (modeAfter_eq_script_iff before)⟩
  induction h with
  | start => exact ⟨[], rfl, by simp [hp, modeAfter]⟩
  | @turn _ _ t _ _ _ ht hturn ih =>
    obtain ⟨before, hts, hmode⟩ := ih
    obtain ⟨taken, rfl, hregion⟩ := turn?_mode hlimit ht hturn hmode
    refine ⟨before ++ t :: taken, by simp [hts], ?_⟩
    rw [hregion, modeAfter_append]

end Turns

end Progress

/-! ## Scripts of a page -/

/-- A script among the chunks of a page stands between its opening tag and its end, and outside
other scripts. -/
theorem exists_of_mem_chunks {mode : Mode} {ts : List Token} (hmode : mode = .markup ∨ Ended ts)
    {opening : Token} {inside : List Token} (h : Chunk.script opening inside ∈ chunks ts) :
    ∃ before after, ts = before ++ opening :: (inside ++ after) ∧ opening.kind = .scriptOpen ∧
      Inside inside ∧ Ended after ∧ modeAfter mode before = .markup := by
  fun_induction chunks ts generalizing mode with
  | case1 => simp at h
  | case2 => simp at h
  | case3 t ts he ho ih =>
    have ho : t.kind = .scriptOpen := by simpa using ho
    have hmarkup : mode = .markup := hmode.resolve_right fun hended => by
      have := hended t rfl
      simp [Token.endsScript, ho] at this
    rcases List.mem_cons.1 h with heq | h
    · obtain ⟨rfl, rfl⟩ := Chunk.script.inj heq
      refine ⟨[], endOf ts, ?_, ho, inside_insideOf ts, ended_endOf ts, hmarkup⟩
      rw [insideOf_append_endOf, List.nil_append]
    · obtain ⟨before, after, hsplit, hrest⟩ :=
        @ih (modeAfter mode (t :: insideOf ts)) (Or.inr (ended_endOf ts)) h
      refine ⟨t :: insideOf ts ++ before, after, ?_, ?_⟩
      · rw [List.append_assoc, ← hsplit, List.cons_append, insideOf_append_endOf]
      · rw [modeAfter_append]
        exact hrest
  | case4 t ts he ho ih =>
    have ho : t.kind ≠ .scriptOpen := by simpa using ho
    have hafter : mode.after (some t.kind) = .markup := by
      rcases hmode with rfl | hended
      · cases hk : t.kind <;> first | rfl | exact absurd hk ho
      · rcases kind_of_endsScript (hended t rfl) with hk | hk
        · exact absurd hk (by simpa using he)
        · rw [hk]
          rfl
    rcases List.mem_cons.1 h with heq | h
    · exact Chunk.noConfusion heq
    · obtain ⟨before, after, rfl, hrest⟩ := ih (Or.inl hafter) h
      exact ⟨t :: before, after, rfl, hrest⟩

end PageLint
