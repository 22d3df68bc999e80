import PageLint.Proofs.Regions.Loop

/-!
# Scripts that are met

The loop over a page meets every script that is a chunk of it: at its opening tag the loop is
outside scripts, and what has been read is what the chunks in front of the script add. Inside a
script the loop goes from statement to statement up to its end.

* `Progress.Reaches.trans` — turns go on from where others have led
* `Progress.reaches_scriptFrom?` — the turns inside a script
* `Progress.reaches_script` — what has been read where a script of a page opens
-/

namespace PageLint

namespace Progress

variable {config : Config}

theorem Reaches.trans {p q r : Progress} {ts us vs : List Token} (h : Reaches config p ts q us)
    (h' : Reaches config q us r vs) : Reaches config p ts r vs := by
  induction h' with
  | start => exact h
  | turn _ ht hturn ih => exact .turn ih ht hturn

theorem Reaches.of_turn {p q : Progress} {t : Token} {ts us : List Token} (ht : t.kind ≠ .eof)
    (h : p.turn? config t ts = some (q, us)) : Reaches config p (t :: ts) q us :=
  .turn .start ht h

/-- Inside a script the turns lead from statement to statement up to its end. -/
theorem reaches_scriptFrom? {p : Progress} {region : Region} (hregion : p.region = some region)
    {ts : List Token} {found : Harvest} (h : scriptFrom? config ts = some found) :
    Reaches config p ts (p.collect region found) found.rest := by
  fun_induction scriptFrom? config ts generalizing p region found with
  | case1 =>
    obtain rfl := Option.some.inj h
    rw [collect_nothing hregion]
    exact .start
  | case2 t ts =>
    obtain rfl := Option.some.inj h
    rw [collect_nothing hregion]
    exact .start
  | case3 => simp at h
  | case4 t ts hend first hfirst hlt ih =>
    obtain ⟨more, hmore, rfl⟩ := Option.map_eq_some_iff.1 h
    obtain ⟨he, hc⟩ : t.kind ≠ .eof ∧ t.kind ≠ .scriptClose := by simpa using hend
    have hturn : p.turn? config t ts = some (p.collect region first, first.rest) := by
      rw [turn?, hregion]
      simp only
      rw [if_neg (by simpa using hc), hfirst, Option.map_some, if_pos hlt]
    rw [collect_append]
    exact (Reaches.of_turn he hturn).trans (ih rfl hmore)
  | case5 t ts hend first hfirst hlt ih =>
    obtain ⟨more, hmore, rfl⟩ := Option.map_eq_some_iff.1 h
    obtain ⟨he, hc⟩ : t.kind ≠ .eof ∧ t.kind ≠ .scriptClose := by simpa using hend
    have hturn : p.turn? config t ts = some (p.collect region first, ts) := by
      rw [turn?, hregion]
      simp only
      rw [if_neg (by simpa using hc), hfirst, Option.map_some, if_neg hlt]
    rw [collect_append]
    exact (Reaches.of_turn he hturn).trans (ih rfl hmore)

/-- From its opening tag the turns lead to the end of a script, where closing it adds the script. -/
theorem reaches_endOf (hlimit : 1 ≤ config.maxExpressionTokens) {p : Progress}
    (hp : p.region = none) {opening : Token} (ho : opening.kind = .scriptOpen) (ts : List Token) :
    ∃ q : Progress, Reaches config p (opening :: ts) q (endOf ts) ∧
      q.finish.silent = (p.add config (.script opening (insideOf ts))).silent := by
  obtain ⟨alone, found, halone, hend, hfound, hbefore⟩ :=
    scriptFrom?_before hlimit (ended_endOf ts) (inside_insideOf ts)
  rw [insideOf_append_endOf] at hfound
  have hrest : found.rest = endOf ts := by rw [hbefore.rest, hend, List.nil_append]
  have hharvest : harvestOf config (insideOf ts) = alone := by rw [harvestOf, halone]; rfl
  let region : Region := { location := opening.location }
  let start : Progress := { p with region := some region }
  have hturn : p.turn? config opening ts = some (start, ts) := by
    rw [turn?, hp]
    simp [readMarkup, ho, start, region]
  refine ⟨start.collect region found, ?_, ?_⟩
  · rw [← hrest]
    exact (Reaches.of_turn (by simp [ho]) hturn).trans (reaches_scriptFrom? rfl hfound)
  · have hsilent := closeScript_collect_silent hp region found
    rw [hbefore.statements, hbefore.declared, ← hharvest] at hsilent
    show ((start.collect region found).closeScript
      { region with statements := found.statements }).silent = _
    rw [hbefore.statements, ← hharvest]
    exact hsilent

/-- **The loop meets every script of a page**: at its opening tag the loop is outside scripts, and
has read what the chunks in front of the script add. The loop may start at the end of a script that
is still open. -/
theorem reaches_script (hlimit : 1 ≤ config.maxExpressionTokens) {p : Progress} {ts : List Token}
    (hp : p.region = none ∨ Ended ts) {before after : List Chunk} {opening : Token}
    {inside : List Token} (h : chunks ts = before ++ .script opening inside :: after) :
    ∃ q us, Reaches config p ts q (opening :: us) ∧ opening.kind = .scriptOpen ∧
      q.region = none ∧ q.silent = (before.foldl (add config) p.finish).silent := by
  fun_induction chunks ts generalizing p before with
  | case1 => simp at h
  | case2 => simp at h
  | case3 t ts he ho ih =>
    have ho : t.kind = .scriptOpen := by simpa using ho
    have hp : p.region = none := hp.resolve_right fun hended => by
      have := hended t rfl
      simp [Token.endsScript, ho] at this
    cases before with
    | nil =>
      obtain ⟨rfl, -⟩ : t = opening ∧ insideOf ts = inside := by simpa using (List.cons.inj h).1
      exact ⟨p, ts, .start, ho, hp, by rw [finish_eq_self hp]; rfl⟩
    | cons c before =>
      obtain ⟨rfl, hrest⟩ := List.cons.inj h
      obtain ⟨q, hreach, hsilent⟩ := reaches_endOf hlimit hp ho ts
      obtain ⟨r, us, hmore, hkind, hregion, hlast⟩ := ih (Or.inr (ended_endOf ts)) hrest
      refine ⟨r, us, hreach.trans hmore, hkind, hregion, hlast.trans ?_⟩
      rw [List.foldl_cons, finish_eq_self hp]
      exact foldl_add_silent config before hsilent
  | case4 t ts he ho ih =>
    have he : t.kind ≠ .eof := by simpa using he
    cases before with
    | nil => simp at h
    | cons c before =>
      obtain ⟨rfl, hrest⟩ := List.cons.inj h
      -- One turn leads to where the chunk has been added: the token is markup, or the closing tag
      -- of an open script, which is nothing but its end.
      obtain ⟨q, hturn, hq, hadd⟩ : ∃ q, p.turn? config t ts = some (q, ts) ∧ q.region = none ∧
          p.finish.add config (.markup t) = q := by
        cases hregion : p.region with
        | none =>
          refine ⟨p.readMarkup config t, by rw [turn?, hregion], ?_, ?_⟩
          · rw [← Option.not_isSome_iff_eq_none, readMarkup_region config hregion]
            exact ho
          · rw [finish_eq_self hregion]
            rfl
        | some region =>
          have hclose : t.kind = .scriptClose :=
            (kind_of_endsScript (hp.resolve_left (by simp [hregion]) t rfl)).resolve_left he
          refine ⟨p.closeScript region, ?_, closeScript_region p region, ?_⟩
          · rw [turn?, hregion]
            simp [hclose]
          · rw [finish, hregion, add, readMarkup, hclose]
      obtain ⟨r, us, hmore, hkind, hnone, hlast⟩ := ih (Or.inl hq) hrest
      refine ⟨r, us, (Reaches.of_turn he hturn).trans hmore, hkind, hnone, hlast.trans ?_⟩
      rw [List.foldl_cons, hadd, finish_eq_self hq]

end Progress

end PageLint
