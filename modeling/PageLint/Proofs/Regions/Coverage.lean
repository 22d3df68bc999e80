import PageLint.Proofs.ModeDiscipline

/-!
# The tokens of chunks

The chunks of a page hold all its tokens in order, up to the end of the input. Those inside a script
are code, so every opening tag that has been scanned is a chunk of its own.

* `Chunk.tokens` — the tokens of a chunk
* `flatMap_tokens_chunks` — the chunks of a page hold its tokens
* `scans_of_mem_script` — the tokens of a script are code
-/

namespace PageLint

/-- The tokens of a chunk. -/
def Chunk.tokens : Chunk → List Token
  | .markup t => [t]
  | .script opening inside => opening :: inside

/-- A token for the end of the input has none behind it. -/
def EndsLast (ts : List Token) : Prop :=
  ∀ before t after, ts = before ++ t :: after → t.kind = .eof → after = []

theorem EndsLast.of_suffix {ts us : List Token} (h : EndsLast ts) (hs : us <:+ ts) :
    EndsLast us := by
  obtain ⟨front, rfl⟩ := hs
  rintro before t after rfl
  exact h (front ++ before) t after (by simp)

/-- **The chunks of a page hold its tokens**, up to the end of the input. -/
theorem flatMap_tokens_chunks {ts : List Token} (h : EndsLast ts) :
    (chunks ts).flatMap Chunk.tokens = ts.filter fun t => t.kind != .eof := by
  fun_induction chunks ts with
  | case1 => rfl
  | case2 t ts heof =>
    obtain rfl := h [] t ts rfl (by simpa using heof)
    simpa using heof
  | case3 t ts heof _ ih =>
    have hinside : (insideOf ts).filter (fun t => t.kind != .eof) = insideOf ts := by
      refine List.filter_eq_self.2 fun u hu => ?_
      have hends := inside_insideOf ts u hu
      simp only [Token.endsScript, Bool.or_eq_false_iff] at hends
      simp [bne, hends]
    have hrest := ih (h.of_suffix ((List.dropWhile_suffix _).trans (List.suffix_cons t ts)))
    rw [List.flatMap_cons, hrest, List.filter_cons_of_pos (by simpa using heof)]
    conv => rhs; rw [← insideOf_append_endOf ts, List.filter_append, hinside]
    rfl
  | case4 t ts heof _ ih =>
    rw [List.flatMap_cons, ih (h.of_suffix (List.suffix_cons t ts)),
      List.filter_cons_of_pos (by simpa using heof)]
    rfl

section Source

variable (source : String) (file : Option String)

/-- The chunks of a source hold its tokens, up to the end of the input. -/
theorem flatMap_tokens_tokenize : (chunks (tokenize source file)).flatMap Chunk.tokens =
    (tokenize source file).filter fun t => t.kind != .eof :=
  flatMap_tokens_chunks fun _ _ _ hsplit heof => scanFrom_eof hsplit heof

/-- **The tokens inside a script are code.** -/
theorem scans_of_mem_script {opening : Token} {inside : List Token}
    (h : Chunk.script opening inside ∈ chunks (tokenize source file)) :
    opening.kind = .scriptOpen ∧ ∀ t ∈ inside, Mode.script.scans t.kind = true := by
  obtain ⟨before, after, htokens, hopening, hinside, -, -⟩ :=
    exists_of_mem_chunks (Or.inl (rfl : Mode.markup = .markup)) h
  refine ⟨hopening, fun t ht => ?_⟩
  obtain ⟨front, back, rfl⟩ := List.append_of_mem ht
  -- In front of the token a script has been opened and not closed.
  have hopen : InScript (before ++ opening :: front) := by
    refine ⟨before, opening, front, rfl, hopening, fun u hu hk => ?_⟩
    have hends := hinside u (List.mem_append_left _ hu)
    simp [Token.endsScript, hk] at hends
  have hscans := tokenize_inModes source file (before ++ opening :: front) t (back ++ after)
    (by simpa using htokens)
  rwa [(modeAfter_eq_script_iff _).2 hopen] at hscans

end Source

end PageLint
