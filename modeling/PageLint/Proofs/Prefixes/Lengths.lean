import PageLint.Proofs.ModeDiscipline

/-!
# Lengths that look no further

The functions that measure a token look ahead: for a closing mark, for the digits of an exponent,
for the longest operator. None of them looks further than the token that it finds, or what it sees
there decides nothing: when the input ends behind the token, it finds the same.

* `Steady` — a length that does not depend on what stands behind it
* `Steady.followedBy` — two such lengths, one behind the other
* `angleToken_take`, `scriptToken_take` — the tokens of markup and of scripts
-/

namespace PageLint

/-- A length that is measured at the front of an input is also measured when the input ends anywhere
behind it. -/
def Steady (f : List Char → Nat) : Prop :=
  ∀ (m : Nat) (cs : List Char), f cs ≤ m → f (cs.take m) = f cs

theorem Steady.followedBy {f g : List Char → Nat} (hf : Steady f) (hg : Steady g) :
    Steady fun cs => f cs + g (cs.drop (f cs)) := by
  intro m cs (h : f cs + g (cs.drop (f cs)) ≤ m)
  have hfirst : f (cs.take m) = f cs := hf m cs (Nat.le_of_add_right_le h)
  have hsecond : g ((cs.drop (f cs)).take (m - f cs)) = g (cs.drop (f cs)) :=
    hg (m - f cs) (cs.drop (f cs)) (Nat.le_sub_of_add_le' h)
  simp only [hfirst, List.drop_take, hsecond]

theorem length_takeWhile_take (p : Char → Bool) (m : Nat) (cs : List Char) :
    ((cs.take m).takeWhile p).length = min m (cs.takeWhile p).length := by
  rw [← List.take_takeWhile, List.length_take]

theorem takeWhile_take (p : Char → Bool) {m : Nat} {cs : List Char}
    (h : (cs.takeWhile p).length ≤ m) : (cs.take m).takeWhile p = cs.takeWhile p := by
  rw [← List.take_takeWhile, List.take_of_length_le h]

/-! ## Words at the front -/

/-- A word that an input starts with, where the input ends. -/
theorem Text.startsWithFolded_take (word : List Char) (m : Nat) (cs : List Char) :
    startsWithFolded word (cs.take m) = true ↔
      startsWithFolded word cs = true ∧ word.length ≤ m := by
  simp only [startsWithFolded, beq_iff_eq, List.take_take]
  constructor
  · intro h
    have hlength := congrArg List.length h
    rw [List.length_map, List.length_take] at hlength
    have hle : word.length ≤ m := by omega
    rw [Nat.min_eq_left hle] at h
    exact ⟨h, hle⟩
  · rintro ⟨h, hle⟩
    rw [Nat.min_eq_left hle]
    exact h

theorem isPrefixOf_take (word : List Char) (m : Nat) (cs : List Char) :
    word.isPrefixOf (cs.take m) = true ↔ word.isPrefixOf cs = true ∧ word.length ≤ m := by
  rw [List.isPrefixOf_iff_prefix, List.isPrefixOf_iff_prefix, List.prefix_take_iff]

/-! ## Markup -/

theorem Text.lengthThrough_steady (piece : List Char) : Steady (lengthThrough piece) := by
  intro m cs h
  induction cs generalizing m with
  | nil => rw [List.take_nil]
  | cons c cs ih =>
    cases m with
    | zero => exact (Nat.le_zero.1 h).symm
    | succ m =>
      have htake := isPrefixOf_take piece (m + 1) (c :: cs)
      rw [List.take_succ_cons] at htake
      simp only [lengthThrough] at h
      rw [List.take_succ_cons, lengthThrough, lengthThrough]
      split at h
      · rename_i hfound
        rw [if_pos (htake.2 ⟨hfound, h⟩), if_pos hfound]
      · rename_i hfound
        rw [if_neg fun h' => hfound (htake.1 h').1, if_neg hfound, ih m (Nat.le_of_succ_le_succ h)]

theorem tagLength_steady (quote : Option Char) : Steady (tagLength quote) := by
  intro m cs h
  fun_induction tagLength quote cs generalizing m with
  | case1 => rw [List.take_nil, tagLength]
  | case2 mark c cs ih =>
    obtain ⟨m, rfl⟩ := Nat.exists_eq_add_of_le' (Nat.le_of_add_left_le h)
    rw [List.take_succ_cons, tagLength, ih m (Nat.le_of_succ_le_succ h)]
  | case3 c cs hquote ih =>
    obtain ⟨m, rfl⟩ := Nat.exists_eq_add_of_le' (Nat.le_of_add_left_le h)
    rw [List.take_succ_cons, tagLength, if_pos hquote, ih m (Nat.le_of_succ_le_succ h)]
  | case4 c cs hquote hclose =>
    obtain ⟨m, rfl⟩ := Nat.exists_eq_add_of_le' h
    rw [List.take_succ_cons, tagLength, if_neg hquote, if_pos hclose]
  | case5 c cs hquote hclose ih =>
    obtain ⟨m, rfl⟩ := Nat.exists_eq_add_of_le' (Nat.le_of_add_left_le h)
    rw [List.take_succ_cons, tagLength, if_neg hquote, if_neg hclose,
      ih m (Nat.le_of_succ_le_succ h)]

/-- A length that takes one more character than a length behind it. -/
theorem lt_succ_of_behind {c : Char} {cs : List Char} {n : Nat}
    (h : ∀ {k}, k < cs.length → '>' ∉ cs.take k → k < n) {k : Nat} (hk : k < (c :: cs).length)
    (hangle : '>' ∉ (c :: cs).take k) : k < n + 1 := by
  cases k with
  | zero => exact Nat.succ_pos n
  | succ k =>
    rw [List.take_succ_cons, List.mem_cons, not_or] at hangle
    exact Nat.succ_lt_succ (h (Nat.lt_of_succ_lt_succ hk) hangle.2)

/-- A piece with an angle bracket is not found in front of one. -/
theorem lt_lengthThrough {piece : List Char} (hpiece : '>' ∈ piece) {k : Nat} {cs : List Char}
    (hk : k < cs.length) (hangle : '>' ∉ cs.take k) : k < Text.lengthThrough piece cs := by
  induction cs generalizing k with
  | nil => exact absurd hk (Nat.not_lt_zero k)
  | cons c cs ih =>
    rw [Text.lengthThrough]
    split
    · rename_i hfound
      refine Nat.lt_of_not_le fun hle => hangle ?_
      have hprefix := (isPrefixOf_take piece k (c :: cs)).2 ⟨hfound, hle⟩
      exact (List.isPrefixOf_iff_prefix.1 hprefix).subset hpiece
    · exact lt_succ_of_behind ih hk hangle

/-- A tag goes on up to an angle bracket. -/
theorem lt_tagLength (quote : Option Char) {k : Nat} {cs : List Char} (hk : k < cs.length)
    (hangle : '>' ∉ cs.take k) : k < tagLength quote cs := by
  fun_induction tagLength quote cs generalizing k with
  | case1 => exact absurd hk (Nat.not_lt_zero k)
  | case4 c cs hquote hclose =>
    cases k with
    | zero => exact Nat.succ_pos _
    | succ k =>
      rw [beq_iff_eq.1 hclose, List.take_succ_cons] at hangle
      exact absurd List.mem_cons_self hangle
  | case2 mark c cs ih | case3 c cs _ ih | case5 c cs _ _ ih =>
    exact lt_succ_of_behind ih hk hangle

/-- The token at a `<` goes on up to an angle bracket. -/
theorem lt_angleToken {k : Nat} {cs : List Char} (hk : k < cs.length) (hangle : '>' ∉ cs.take k) :
    k < (angleToken cs).2 := by
  unfold angleToken
  split
  · exact lt_tagLength none hk hangle
  split
  · exact lt_lengthThrough List.mem_cons_self hk hangle
  split
  · by_cases hshort : k < 4
    · exact Nat.lt_add_right _ hshort
    · obtain ⟨k, rfl⟩ := Nat.exists_eq_add_of_le (Nat.le_of_not_lt hshort)
      have hbehind : '>' ∉ (cs.drop 4).take k := by
        rw [List.take_add] at hangle
        exact fun hmem => hangle (List.mem_append_right _ hmem)
      have hlength : k < (cs.drop 4).length := by
        rw [List.length_drop]
        omega
      exact Nat.add_lt_add_left (lt_lengthThrough (by simp) hlength hbehind) 4
  split
  · exact lt_lengthThrough List.mem_cons_self hk hangle
  · exact lt_tagLength none hk hangle

/-- A word without an angle bracket that an input starts with is part of the token there. -/
theorem length_le_angleToken {n : Nat} {cs : List Char} (hangle : '>' ∉ cs.take n)
    (hlength : n ≤ cs.length) : n ≤ (angleToken cs).2 := by
  cases n with
  | zero => exact Nat.zero_le _
  | succ k =>
    refine lt_angleToken hlength fun hmem => hangle ?_
    exact List.take_subset_take_left cs (Nat.le_succ k) hmem

section Ending

variable {word cs : List Char} (hword : '>' ∉ word)

include hword

theorem not_mem_of_startsWithFolded (h : Text.startsWithFolded word cs = true) :
    '>' ∉ cs.take word.length := by
  intro hmem
  rw [Text.startsWithFolded, beq_iff_eq] at h
  refine hword ?_
  rw [← h]
  exact List.mem_map_of_mem hmem

theorem startsWithFolded_ending {m : Nat} (h : (angleToken cs).2 ≤ m) :
    Text.startsWithFolded word (cs.take m) = Text.startsWithFolded word cs := by
  rw [Bool.eq_iff_iff, Text.startsWithFolded_take, and_iff_left_iff_imp]
  intro hstarts
  refine Nat.le_trans (length_le_angleToken (not_mem_of_startsWithFolded hword hstarts) ?_) h
  rw [← List.take_length (l := cs), Text.startsWithFolded_take] at hstarts
  exact hstarts.2

theorem isPrefixOf_ending {m : Nat} (h : (angleToken cs).2 ≤ m) :
    word.isPrefixOf (cs.take m) = word.isPrefixOf cs := by
  rw [Bool.eq_iff_iff, isPrefixOf_take, and_iff_left_iff_imp]
  intro hstarts
  have hprefix := List.isPrefixOf_iff_prefix.1 hstarts
  refine Nat.le_trans (length_le_angleToken ?_ hprefix.length_le) h
  rwa [← List.prefix_iff_eq_take.1 hprefix]

end Ending

/-- The end of the input ends the name of a script tag only where the input ended before. -/
theorem opensScript_ending {m : Nat} {cs : List Char} (h : (angleToken cs).2 ≤ m) :
    opensScript (cs.take m) = opensScript cs := by
  have hword : '>' ∉ ['<', 's', 'c', 'r', 'i', 'p', 't'] := by decide
  rw [opensScript, opensScript, startsWithFolded_ending hword h, List.drop_take]
  cases hname : Text.startsWithFolded ['<', 's', 'c', 'r', 'i', 'p', 't'] cs with
  | false => rfl
  | true =>
    cases hrest : cs.drop 7 with
    | nil => rw [List.take_nil]
    | cons d ds =>
      have hlong : 7 < cs.length := by
        refine Nat.lt_of_not_le fun hle => ?_
        rw [List.drop_eq_nil_iff.2 hle] at hrest
        cases hrest
      have hshort : 7 < m :=
        Nat.lt_of_lt_of_le (lt_angleToken hlong (not_mem_of_startsWithFolded hword hname)) h
      obtain ⟨j, hj⟩ := Nat.exists_eq_add_of_le' (Nat.sub_pos_of_lt hshort)
      rw [hj, List.take_succ_cons]
      rfl

/-- **The token at a `<`** is found without what stands behind it. -/
theorem angleToken_take {m : Nat} {cs : List Char} (h : (angleToken cs).2 ≤ m) :
    angleToken (cs.take m) = angleToken cs := by
  have hscript := opensScript_ending h
  have hdoctype : opensDoctype (cs.take m) = opensDoctype cs :=
    startsWithFolded_ending (by decide) h
  have hcomment : ['<', '!', '-', '-'].isPrefixOf (cs.take m) =
      ['<', '!', '-', '-'].isPrefixOf cs := isPrefixOf_ending (by decide) h
  have hclose : ['<', '/'].isPrefixOf (cs.take m) = ['<', '/'].isPrefixOf cs :=
    isPrefixOf_ending (by decide) h
  unfold angleToken at h ⊢
  rw [hscript, hdoctype, hcomment, hclose, List.drop_take]
  split at h
  · rename_i h1
    rw [if_pos h1, if_pos h1, tagLength_steady none m cs h]
  rename_i h1
  rw [if_neg h1, if_neg h1]
  split at h
  · rename_i h2
    rw [if_pos h2, if_pos h2, Text.lengthThrough_steady _ m cs h]
  rename_i h2
  rw [if_neg h2, if_neg h2]
  split at h
  · rename_i h3
    rw [if_pos h3, if_pos h3, Text.lengthThrough_steady _ (m - 4) _ (Nat.le_sub_of_add_le' h)]
  rename_i h3
  rw [if_neg h3, if_neg h3]
  split at h
  · rename_i h4
    rw [if_pos h4, if_pos h4, Text.lengthThrough_steady _ m cs h]
  · rename_i h4
    rw [if_neg h4, if_neg h4, tagLength_steady none m cs h]

/-! ## Scripts -/

theorem stringTailLength_cons (mark : Char) {c : Char} (hc : c ≠ '\\') (cs : List Char) :
    stringTailLength mark (c :: cs) =
      if c == mark then 1 else if c == '\n' then 0 else stringTailLength mark cs + 1 := by
  rw [stringTailLength] <;> simp [hc]

theorem stringTailLength_steady (mark : Char) : Steady (stringTailLength mark) := by
  intro m cs h
  have hplain {c : Char} {cs : List Char} (hlast : c = '\\' → cs = [] → False)
      (hescape : ∀ x xs, c = '\\' → cs = x :: xs → False) : c ≠ '\\' := by
    intro hc
    cases cs with
    | nil => exact hlast hc rfl
    | cons x xs => exact hescape x xs hc rfl
  fun_induction stringTailLength mark cs generalizing m with
  | case1 => rw [List.take_nil, stringTailLength]
  | case2 =>
    obtain ⟨m, rfl⟩ := Nat.exists_eq_add_of_le' h
    rw [List.take_succ_cons, List.take_nil, stringTailLength]
  | case3 x cs ih =>
    obtain ⟨m, rfl⟩ := Nat.exists_eq_add_of_le' (Nat.le_of_add_left_le h)
    rw [List.take_succ_cons, List.take_succ_cons, stringTailLength,
      ih m (Nat.le_of_add_le_add_right h)]
  | case4 c cs hlast hescape hmark =>
    obtain ⟨m, rfl⟩ := Nat.exists_eq_add_of_le' h
    rw [List.take_succ_cons, stringTailLength_cons mark (hplain hlast hescape), if_pos hmark]
  | case5 c cs hlast hescape hmark hnewline =>
    cases m with
    | zero => rfl
    | succ m =>
      rw [List.take_succ_cons, stringTailLength_cons mark (hplain hlast hescape), if_neg hmark,
        if_pos hnewline]
  | case6 c cs hlast hescape hmark hnewline ih =>
    obtain ⟨m, rfl⟩ := Nat.exists_eq_add_of_le' (Nat.le_of_add_left_le h)
    rw [List.take_succ_cons, stringTailLength_cons mark (hplain hlast hescape), if_neg hmark,
      if_neg hnewline, ih m (Nat.le_of_succ_le_succ h)]

theorem digitRun_steady : Steady digitRun :=
  fun _ _ h => congrArg List.length (takeWhile_take Text.isDigit h)

theorem fractionLength_steady : Steady fractionLength := by
  intro m cs h
  cases cs with
  | nil => rw [List.take_nil]
  | cons c cs =>
    cases m with
    | zero => exact (Nat.le_zero.1 h).symm
    | succ m =>
      rw [List.take_succ_cons]
      rw [fractionLength] at h ⊢
      rw [fractionLength]
      split at h
      · rename_i hc
        rw [if_pos hc, if_pos hc, digitRun_steady m cs (by omega)]
      · rename_i hc
        rw [if_neg hc, if_neg hc]

theorem signLength_take {m : Nat} (hm : 0 < m) (cs : List Char) :
    signLength (cs.take m) = signLength cs := by
  obtain ⟨m, rfl⟩ := Nat.exists_eq_add_of_le' hm
  cases cs <;> rfl

/-- The mark of an exponent alone is none, whether the input ends behind it or no digit follows. -/
theorem exponentLength_steady : Steady exponentLength := by
  intro m cs h
  cases cs with
  | nil => rw [List.take_nil]
  | cons c cs =>
    cases m with
    | zero => exact (Nat.le_zero.1 h).symm
    | succ m =>
      have hdigits (hm : 0 < m) : digitRun ((cs.take m).drop (signLength (cs.take m))) =
          min (m - signLength cs) (digitRun (cs.drop (signLength cs))) := by
        rw [signLength_take hm, List.drop_take]
        exact length_takeWhile_take ..
      rw [List.take_succ_cons]
      simp only [exponentLength, beq_iff_eq] at h ⊢
      split at h
      · rename_i hc
        rw [if_pos hc, if_pos hc]
        split at h
        · rename_i hnone
          rw [if_pos hnone]
          refine if_pos ?_
          cases m with
          | zero => rfl
          | succ m => rw [hdigits (Nat.succ_pos m), hnone, Nat.min_zero]
        · rename_i hsome
          have hm : 0 < m := by omega
          rw [hdigits hm, Nat.min_eq_right (by omega), signLength_take hm, if_neg hsome]
      · rename_i hc
        rw [if_neg hc, if_neg hc]

theorem numberLength_steady : Steady numberLength :=
  (digitRun_steady.followedBy fractionLength_steady).followedBy exponentLength_steady

/-- Whether the input starts with an operator of a length, where the input ends. -/
theorem contains_take_take (table : List (List Char)) (n : Nat)
    (htable : ∀ op ∈ table, op.length = n) (m : Nat) (cs : List Char) :
    table.contains ((cs.take m).take n) = true ↔ table.contains (cs.take n) = true ∧ n ≤ m := by
  rw [List.take_take, List.contains_iff_mem, List.contains_iff_mem]
  constructor
  · intro h
    have hlength := htable _ h
    rw [List.length_take] at hlength
    have hle : n ≤ m := by omega
    rw [Nat.min_eq_left hle] at h
    exact ⟨h, hle⟩
  · rintro ⟨h, hle⟩
    rwa [Nat.min_eq_left hle]

theorem operatorLength_steady : Steady operatorLength := by
  intro m cs h
  have hlong := contains_take_take longOperators 3 (by decide) m cs
  have hpair := contains_take_take pairOperators 2 (by decide) m cs
  rw [operatorLength] at h ⊢
  rw [operatorLength]
  split at h
  · rename_i h3
    rw [if_pos (hlong.2 ⟨h3, h⟩), if_pos h3]
  rename_i h3
  rw [if_neg fun h' => h3 (hlong.1 h').1, if_neg h3]
  split at h
  · rename_i h2
    rw [if_pos (hpair.2 ⟨h2, h⟩), if_pos h2]
  · rename_i h2
    rw [if_neg fun h' => h2 (hpair.1 h').1, if_neg h2]

/-- A comment starts with two slashes or with a slash and a star. -/
theorem commentLength?_eq_some {cs : List Char} {n : Nat} (h : commentLength? cs = some n) :
    (∃ ds, cs = '/' :: '/' :: ds ∧ n = 2 + (ds.takeWhile (· != '\n')).length) ∨
      ∃ ds, cs = '/' :: '*' :: ds ∧ n = 2 + Text.lengthThrough ['*', '/'] ds := by
  unfold commentLength? at h
  split at h
  · exact Or.inl ⟨_, rfl, (Option.some.inj h).symm⟩
  · exact Or.inr ⟨_, rfl, (Option.some.inj h).symm⟩
  · cases h

theorem commentLength?_take {m : Nat} {cs : List Char} (h : (commentLength? cs).getD 0 ≤ m) :
    commentLength? (cs.take m) = commentLength? cs := by
  cases hcomment : commentLength? cs with
  | some n =>
    rw [hcomment, Option.getD_some] at h
    rcases commentLength?_eq_some hcomment with ⟨ds, rfl, rfl⟩ | ⟨ds, rfl, rfl⟩
    · obtain ⟨m, rfl⟩ := Nat.exists_eq_add_of_le' (Nat.le_of_add_right_le h)
      rw [List.take_succ_cons, List.take_succ_cons, commentLength?,
        takeWhile_take _ (by omega)]
    · obtain ⟨m, rfl⟩ := Nat.exists_eq_add_of_le' (Nat.le_of_add_right_le h)
      rw [List.take_succ_cons, List.take_succ_cons, commentLength?,
        Text.lengthThrough_steady _ m ds (by omega)]
  | none =>
    cases hend : commentLength? (cs.take m) with
    | none => rfl
    | some n =>
      rw [← List.take_append_drop m cs] at hcomment
      rcases commentLength?_eq_some hend with ⟨ds, hds, -⟩ | ⟨ds, hds, -⟩ <;>
      · rw [hds] at hcomment
        cases hcomment

theorem scriptCloseLength?_take {m : Nat} {cs : List Char}
    (h : (scriptCloseLength? cs).getD 0 ≤ m) :
    scriptCloseLength? (cs.take m) = scriptCloseLength? cs := by
  cases hclose : scriptCloseLength? cs with
  | some n =>
    rw [hclose, Option.getD_some] at h
    obtain ⟨name, blanks, rest, rfl, hname, hblanks, rfl⟩ := scriptCloseLength?_eq_some hclose
    obtain ⟨k, rfl⟩ := Nat.exists_eq_add_of_le h
    have htake : (name ++ (blanks ++ '>' :: rest)).take (8 + blanks.length + 1 + k) =
        name ++ (blanks ++ '>' :: rest.take k) := by
      rw [← length_of_folded hname, Nat.add_assoc, Nat.add_assoc, List.take_length_add_append,
        List.take_length_add_append, Nat.add_comm, List.take_succ_cons]
    rw [htake, scriptCloseLength?_closing hname hblanks]
  | none =>
    cases hend : scriptCloseLength? (cs.take m) with
    | none => rfl
    | some n =>
      obtain ⟨name, blanks, rest, hinput, hname, hblanks, -⟩ := scriptCloseLength?_eq_some hend
      rw [← List.take_append_drop m cs, hinput, List.append_assoc, List.append_assoc,
        List.cons_append, scriptCloseLength?_closing hname hblanks] at hclose
      cases hclose

theorem plainToken_take {c : Char} {cs : List Char} {m : Nat} (h : (plainToken c cs).2 ≤ m + 1) :
    plainToken c (cs.take m) = plainToken c cs := by
  unfold plainToken at h ⊢
  rw [← List.take_succ_cons]
  split at h
  · rename_i hquote
    rw [if_pos hquote, if_pos hquote, stringTailLength_steady c m cs (by omega)]
  rename_i hquote
  rw [if_neg hquote, if_neg hquote]
  split at h
  · rename_i hdigit
    rw [if_pos hdigit, if_pos hdigit, numberLength_steady (m + 1) (c :: cs) h]
  rename_i hdigit
  rw [if_neg hdigit, if_neg hdigit]
  split at h
  · rename_i hword
    have hlength : (cs.takeWhile Text.isWordPart).length ≤ m := by
      simp only at h
      omega
    simp only [if_pos hword, takeWhile_take _ hlength, List.take_take, Nat.min_eq_left hlength]
  rename_i hword
  rw [if_neg hword, if_neg hword]
  cases hcomment : commentLength? (c :: cs) with
  | some n =>
    rw [hcomment] at h
    rw [commentLength?_take (by rwa [hcomment]), hcomment]
  | none =>
    rw [hcomment] at h
    rw [commentLength?_take (by rw [hcomment]; exact Nat.zero_le _), hcomment]
    dsimp only at h ⊢
    split at h
    · rename_i hoperator
      rw [if_pos hoperator, if_pos hoperator, operatorLength_steady (m + 1) (c :: cs) h]
    · rename_i hoperator
      rw [if_neg hoperator, if_neg hoperator]

/-- **A token of a script** is found without what stands behind it. -/
theorem scriptToken_take {c : Char} {cs : List Char} {m : Nat} (h : (scriptToken c cs).2 ≤ m + 1) :
    scriptToken c (cs.take m) = scriptToken c cs := by
  unfold scriptToken at h ⊢
  rw [← List.take_succ_cons]
  cases hclose : scriptCloseLength? (c :: cs) with
  | some n =>
    rw [hclose] at h
    rw [scriptCloseLength?_take (by rwa [hclose]), hclose]
  | none =>
    rw [hclose] at h
    rw [scriptCloseLength?_take (by rw [hclose]; exact Nat.zero_le _), hclose]
    exact plainToken_take h

end PageLint
