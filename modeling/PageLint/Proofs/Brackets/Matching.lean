import PageLint.Proofs.Suffix

/-!
# Matching brackets

An opening bracket is closed where, counted from it, there are as many closing brackets as opening
ones for the first time. A search for that place goes over the tokens with the number of brackets
that are open, and some kinds of token end it early: for parentheses a brace or the end of the
script, for braces the end of the script.

* `Brackets` — a pair of brackets and the tokens at which a search for the closing one ends
* `Brackets.ClosedAt`, `Brackets.StopsAt` — where a bracket is closed and where a search for that
  place has to stop, by indices into a list of tokens
* `Brackets.skip` — the search
* `Brackets.openAfter?` — how many brackets are open behind tokens that such a search goes over
* `Brackets.skip_stopsAt` — the search stops where it has to
-/

namespace PageLint

/-- A pair of brackets, and the kinds of token at which a search for the closing one ends. -/
structure Brackets where
  opening : TokenKind
  closing : TokenKind
  ends : TokenKind → Bool
  closing_ne : closing ≠ opening := by decide
  ends_opening : ends opening = false := by decide
  ends_closing : ends closing = false := by decide

/-- Parentheses are closed before a brace or the end of the script. -/
def parens : Brackets where
  opening := .leftParen
  closing := .rightParen
  ends := TokenKind.isBoundary

/-- Braces are closed before the end of the script. -/
def braces : Brackets where
  opening := .leftBrace
  closing := .rightBrace
  ends kind := kind == .eof || kind == .scriptClose

namespace Brackets

variable (b : Brackets)

/-! ## Closing brackets by counting -/

/-- The number of opening brackets less the number of closing ones. -/
def excess (ts : List Token) : Int :=
  (ts.countP fun t => t.kind == b.opening : Int) - ts.countP fun t => t.kind == b.closing

/-- The bracket at index `i` is closed at index `j`: from `i` through `j` there are as many closing
brackets as opening ones, and this is so for the first time. -/
structure ClosedAt (ts : List Token) (i j : Nat) : Prop where
  lt : i < j
  lt_length : j < ts.length
  balanced : b.excess (ts.extract i (j + 1)) = 0
  first : ∀ m, i ≤ m → m < j → b.excess (ts.extract i (m + 1)) ≠ 0

/-- No token between two indices ends a search. -/
def ClearBetween (ts : List Token) (i j : Nat) : Prop :=
  ∀ m t, i < m → m < j → ts[m]? = some t → b.ends t.kind = false

/-- Where a search for what closes the bracket at index `i` has to stop: right behind the closing
bracket, or, when the search ends before one is found, at the first token that ends it or at the end
of the list. -/
inductive StopsAt (ts : List Token) (i : Nat) : Nat → Prop
  | closed {j : Nat} (closedAt : b.ClosedAt ts i j) (clear : b.ClearBetween ts i j) :
      StopsAt ts i (j + 1)
  | ended {stop : Nat} (unclosed : ∀ j, b.ClosedAt ts i j → ¬ b.ClearBetween ts i j)
      (lt : i < stop) (le_length : stop ≤ ts.length) (clear : b.ClearBetween ts i stop)
      (ends : ∀ t, ts[stop]? = some t → b.ends t.kind = true) : StopsAt ts i stop

section Excess

variable {b} {t : Token} (ts us : List Token)

theorem excess_nil : b.excess [] = 0 := rfl

theorem excess_opening (h : t.kind = b.opening) : b.excess (t :: ts) = b.excess ts + 1 := by
  have hne : b.opening ≠ b.closing := b.closing_ne.symm
  simp only [excess, List.countP_cons, h, beq_self_eq_true, if_true, beq_eq_false_iff_ne.2 hne,
    Bool.false_eq_true, if_false]
  omega

theorem excess_closing (h : t.kind = b.closing) : b.excess (t :: ts) = b.excess ts - 1 := by
  simp only [excess, List.countP_cons, h, beq_self_eq_true, if_true,
    beq_eq_false_iff_ne.2 b.closing_ne, Bool.false_eq_true, if_false]
  omega

theorem excess_other (hopening : t.kind ≠ b.opening) (hclosing : t.kind ≠ b.closing) :
    b.excess (t :: ts) = b.excess ts := by
  simp [excess, hopening, hclosing]

theorem excess_append : b.excess (ts ++ us) = b.excess ts + b.excess us := by
  simp only [excess, List.countP_append]
  omega

/-- A token that ends a search is no bracket. -/
theorem excess_ends (h : b.ends t.kind = true) : b.excess (t :: ts) = b.excess ts := by
  refine excess_other ts ?_ ?_
  · intro hk
    rw [hk, b.ends_opening] at h
    exact Bool.false_ne_true h
  · intro hk
    rw [hk, b.ends_closing] at h
    exact Bool.false_ne_true h

end Excess

/-! ## Open brackets along tokens -/

/-- How many brackets are open behind tokens in front of which some are. There is no answer when a
token closes a bracket that is not open, or ends the search. -/
def openAfter? : Nat → List Token → Option Nat
  | depth, [] => some depth
  | depth, t :: ts =>
    if b.ends t.kind then none
    else if t.kind == b.opening then openAfter? (depth + 1) ts
    else if t.kind == b.closing then
      match depth with
      | 0 => none
      | depth + 1 => openAfter? depth ts
    else openAfter? depth ts

/-- The tokens behind the bracket that closes the last of a number of open ones. A token that ends
the search is left. -/
def skip : Nat → List Token → List Token
  | 0, ts => ts
  | _ + 1, [] => []
  | depth + 1, t :: ts =>
    if b.ends t.kind then t :: ts
    else if t.kind == b.opening then skip (depth + 2) ts
    else if t.kind == b.closing then skip depth ts
    else skip (depth + 1) ts

section OpenAfter

variable {b} {depth n : Nat} {t : Token} {ts us : List Token}

/-- One more token in front: it opens a bracket, closes one that is open, or is no bracket. -/
theorem openAfter?_cons (h : b.openAfter? depth (t :: ts) = some n) : b.ends t.kind = false ∧
    (t.kind = b.opening ∧ b.openAfter? (depth + 1) ts = some n ∨
      (∃ d, depth = d + 1 ∧ t.kind = b.closing ∧ b.openAfter? d ts = some n) ∨
      t.kind ≠ b.opening ∧ t.kind ≠ b.closing ∧ b.openAfter? depth ts = some n) := by
  rw [openAfter?.eq_def] at h
  dsimp only at h
  split at h
  · exact absurd h (by simp)
  rename_i hends
  refine ⟨by simpa using hends, ?_⟩
  split at h
  · rename_i hopening
    exact Or.inl ⟨by simpa using hopening, h⟩
  rename_i hopening
  split at h
  · rename_i hclosing
    split at h
    · exact absurd h (by simp)
    · exact Or.inr (Or.inl ⟨_, rfl, by simpa using hclosing, h⟩)
  · rename_i hclosing
    exact Or.inr (Or.inr ⟨by simpa using hopening, by simpa using hclosing, h⟩)

theorem openAfter?_opening (h : t.kind = b.opening) (depth : Nat) (ts : List Token) :
    b.openAfter? depth (t :: ts) = b.openAfter? (depth + 1) ts := by
  rw [openAfter?.eq_def]
  simp [h, b.ends_opening]

theorem openAfter?_closing (h : t.kind = b.closing) (depth : Nat) (ts : List Token) :
    b.openAfter? (depth + 1) (t :: ts) = b.openAfter? depth ts := by
  rw [openAfter?.eq_def]
  simp [h, b.ends_closing, b.closing_ne]

theorem openAfter?_other (hends : b.ends t.kind = false) (hopening : t.kind ≠ b.opening)
    (hclosing : t.kind ≠ b.closing) (depth : Nat) (ts : List Token) :
    b.openAfter? depth (t :: ts) = b.openAfter? depth ts := by
  rw [openAfter?.eq_def]
  simp [hends, hopening, hclosing]

/-- Brackets that are open on both sides change nothing. -/
theorem openAfter?_add (h : b.openAfter? depth ts = some n) (more : Nat) :
    b.openAfter? (depth + more) ts = some (n + more) := by
  induction ts generalizing depth with
  | nil =>
    obtain rfl := Option.some.inj h
    rfl
  | cons t ts ih =>
    obtain ⟨hends, ⟨hk, h⟩ | ⟨d, rfl, hk, h⟩ | ⟨hopening, hclosing, h⟩⟩ := openAfter?_cons h
    · rw [openAfter?_opening hk, Nat.add_right_comm]
      exact ih h
    · rw [Nat.add_right_comm, openAfter?_closing hk]
      exact ih h
    · rw [openAfter?_other hends hopening hclosing]
      exact ih h

theorem openAfter?_append (h : b.openAfter? depth ts = some n) (us : List Token) :
    b.openAfter? depth (ts ++ us) = b.openAfter? n us := by
  induction ts generalizing depth with
  | nil =>
    obtain rfl := Option.some.inj h
    rfl
  | cons t ts ih =>
    rw [List.cons_append]
    obtain ⟨hends, ⟨hk, h⟩ | ⟨d, rfl, hk, h⟩ | ⟨hopening, hclosing, h⟩⟩ := openAfter?_cons h
    · rw [openAfter?_opening hk, ih h]
    · rw [openAfter?_closing hk, ih h]
    · rw [openAfter?_other hends hopening hclosing, ih h]

/-- Going over the first tokens of some that can be gone over. -/
theorem exists_openAfter?_take (h : b.openAfter? depth ts = some n) (m : Nat) :
    ∃ k, b.openAfter? depth (ts.take m) = some k := by
  induction ts generalizing depth m with
  | nil =>
    rw [List.take_nil]
    exact ⟨n, h⟩
  | cons t ts ih =>
    cases m with
    | zero => exact ⟨depth, rfl⟩
    | succ m =>
      rw [List.take_succ_cons]
      obtain ⟨hends, ⟨hk, h⟩ | ⟨d, rfl, hk, h⟩ | ⟨hopening, hclosing, h⟩⟩ := openAfter?_cons h
      · rw [openAfter?_opening hk]
        exact ih h m
      · rw [openAfter?_closing hk]
        exact ih h m
      · rw [openAfter?_other hends hopening hclosing]
        exact ih h m

theorem openAfter?_clear (h : b.openAfter? depth ts = some n) :
    ∀ t ∈ ts, b.ends t.kind = false := by
  induction ts generalizing depth with
  | nil => simp
  | cons t ts ih =>
    obtain ⟨hends, ⟨-, h⟩ | ⟨d, -, -, h⟩ | ⟨-, -, h⟩⟩ := openAfter?_cons h <;>
      exact List.forall_mem_cons.2 ⟨hends, ih h⟩

/-- **The open brackets are those counted**, and never fewer than none. -/
theorem openAfter?_eq (h : b.openAfter? depth ts = some n) : (n : Int) = depth + b.excess ts := by
  induction ts generalizing depth with
  | nil =>
    obtain rfl := Option.some.inj h
    simp [excess_nil]
  | cons t ts ih =>
    obtain ⟨-, ⟨hk, h⟩ | ⟨d, rfl, hk, h⟩ | ⟨hopening, hclosing, h⟩⟩ := openAfter?_cons h
    · rw [excess_opening ts hk, ih h]
      omega
    · rw [excess_closing ts hk, ih h]
      omega
    · rw [excess_other ts hopening hclosing, ih h]

end OpenAfter

/-! ## The search -/

section Skip

variable {b} {depth n : Nat} {t : Token} {ts rest : List Token}

theorem skip_opening (h : t.kind = b.opening) (depth : Nat) (ts : List Token) :
    b.skip (depth + 1) (t :: ts) = b.skip (depth + 2) ts := by
  simp [skip, h, b.ends_opening]

theorem skip_closing (h : t.kind = b.closing) (depth : Nat) (ts : List Token) :
    b.skip (depth + 1) (t :: ts) = b.skip depth ts := by
  simp [skip, h, b.ends_closing, b.closing_ne]

theorem skip_other (hends : b.ends t.kind = false) (hopening : t.kind ≠ b.opening)
    (hclosing : t.kind ≠ b.closing) (depth : Nat) (ts : List Token) :
    b.skip (depth + 1) (t :: ts) = b.skip (depth + 1) ts := by
  simp [skip, hends, hopening, hclosing]

/-- A search stays where it ends, however many brackets are open. -/
theorem skip_ended (h : ∀ t ∈ ts.head?, b.ends t.kind = true) (depth : Nat) :
    b.skip depth ts = ts := by
  cases depth with
  | zero => rw [skip]
  | succ depth =>
    cases ts with
    | nil => rw [skip]
    | cons t ts => rw [skip, if_pos (h t rfl)]

/-- A search goes over tokens that leave a bracket open. -/
theorem skip_append (h : b.openAfter? depth ts = some n) (rest : List Token) :
    b.skip (depth + 1) (ts ++ rest) = b.skip (n + 1) rest := by
  induction ts generalizing depth with
  | nil =>
    obtain rfl := Option.some.inj h
    rfl
  | cons t ts ih =>
    rw [List.cons_append]
    obtain ⟨hends, ⟨hk, h⟩ | ⟨d, rfl, hk, h⟩ | ⟨hopening, hclosing, h⟩⟩ := openAfter?_cons h
    · rw [skip_opening hk, ih h]
    · rw [skip_closing hk, ih h]
    · rw [skip_other hends hopening hclosing, ih h]

/-- What a search goes over: tokens that leave brackets open, up to the bracket that closes the last
of them or to what ends the search. -/
inductive Finds (b : Brackets) (depth : Nat) (ts rest : List Token) : Prop
  | closed {inner : List Token} {close : Token} (split : ts = inner ++ close :: rest)
      (closes : close.kind = b.closing) (inner_open : b.openAfter? depth inner = some 0)
  | ended {inner : List Token} {n : Nat} (split : ts = inner ++ rest)
      (inner_open : b.openAfter? depth inner = some n)
      (ends : ∀ t ∈ rest.head?, b.ends t.kind = true)

theorem Finds.cons {d : Nat} (h : b.Finds d ts rest)
    (hopen : ∀ us, b.openAfter? depth (t :: us) = b.openAfter? d us) :
    b.Finds depth (t :: ts) rest := by
  cases h with
  | closed split closes inner_open =>
    exact .closed (congrArg (t :: ·) split) closes ((hopen _).trans inner_open)
  | ended split inner_open ends =>
    exact .ended (congrArg (t :: ·) split) ((hopen _).trans inner_open) ends

/-- **A search goes over tokens that leave a bracket open**, and stops behind the one that closes
the last of them, or in front of what ends it. -/
theorem skip_finds (b : Brackets) (depth : Nat) (ts : List Token) :
    b.Finds depth ts (b.skip (depth + 1) ts) := by
  induction ts generalizing depth with
  | nil =>
    rw [skip]
    exact @Finds.ended b depth [] [] [] depth rfl rfl (by simp)
  | cons t ts ih =>
    by_cases hends : b.ends t.kind = true
    · have hhead : ∀ u ∈ (t :: ts).head?, b.ends u.kind = true := by
        rintro u ⟨⟩
        exact hends
      rw [skip_ended hhead]
      exact @Finds.ended b depth (t :: ts) (t :: ts) [] depth rfl rfl hhead
    rw [Bool.not_eq_true] at hends
    by_cases hopening : t.kind = b.opening
    · rw [skip_opening hopening]
      exact (ih (depth + 1)).cons (openAfter?_opening hopening depth)
    by_cases hclosing : t.kind = b.closing
    · rw [skip_closing hclosing]
      cases depth with
      | zero =>
        rw [skip]
        exact @Finds.closed b 0 (t :: ts) ts [] t rfl hclosing rfl
      | succ depth => exact (ih depth).cons (openAfter?_closing hclosing depth)
    · rw [skip_other hends hopening hclosing]
      exact (ih depth).cons (openAfter?_other hends hopening hclosing depth)

theorem skip_suffix (b : Brackets) (depth : Nat) (ts : List Token) : b.skip depth ts <:+ ts := by
  cases depth with
  | zero =>
    unfold skip
    exact List.suffix_rfl
  | succ depth =>
    cases skip_finds b depth ts with
    | @closed inner close split _ _ => exact ⟨inner ++ [close], by simpa using split.symm⟩
    | @ended inner n split _ _ => exact ⟨inner, split.symm⟩

/-- A search stays where it starts exactly when no bracket is open or the search ends there. -/
theorem skip_eq_self_iff : b.skip depth ts = ts ↔
    (∀ t ∈ ts.head?, b.ends t.kind = true) ∨ depth = 0 := by
  constructor
  · intro h
    cases depth with
    | zero => exact Or.inr rfl
    | succ depth =>
      have hfinds := skip_finds b depth ts
      rw [h] at hfinds
      cases hfinds with
      | closed split _ _ =>
        have hlength := congrArg List.length split
        simp only [List.length_append, List.length_cons] at hlength
        omega
      | ended _ _ ends => exact Or.inl ends
  · rintro (h | rfl)
    · exact skip_ended h depth
    · rw [skip]

end Skip

/-! ## By indices -/

section Indices

variable {b} {front inner rest : List Token} {t : Token} {n : Nat}

theorem exists_front {ts : List Token} {i : Nat} (h : ts[i]? = some t) :
    ∃ front behind, ts = front ++ t :: behind ∧ front.length = i := by
  obtain ⟨hlt, hget⟩ := List.getElem?_eq_some_iff.1 h
  refine ⟨ts.take i, ts.drop (i + 1), ?_, List.length_take_of_le (Nat.le_of_lt hlt)⟩
  rw [← hget, ← List.drop_eq_getElem_cons hlt, List.take_append_drop]

theorem drop_front_add (behind : List Token) (k : Nat) :
    (front ++ t :: behind).drop (front.length + 1 + k) = behind.drop k := by
  rw [Nat.add_assoc, ← List.drop_drop, List.drop_left, Nat.add_comm, List.drop_succ_cons]

theorem drop_front (behind : List Token) :
    (front ++ t :: behind).drop (front.length + 1) = behind :=
  drop_front_add behind 0

theorem extract_front (m : Nat) :
    (front ++ t :: (inner ++ rest)).extract front.length (front.length + (m + 1)) =
      t :: (inner ++ rest).take m := by
  rw [List.extract_eq_take_drop, List.drop_left, Nat.add_sub_cancel_left, List.take_succ_cons]

/-- Behind an opening bracket and tokens that close nothing of it, the bracket is open. -/
theorem excess_extract_pos (ht : t.kind = b.opening) (hinner : b.openAfter? 0 inner = some n)
    {m : Nat} (hm : front.length ≤ m) (hlt : m ≤ front.length + inner.length) :
    0 < b.excess ((front ++ t :: (inner ++ rest)).extract front.length (m + 1)) := by
  obtain ⟨d, rfl⟩ := Nat.exists_eq_add_of_le hm
  obtain ⟨k, hk⟩ := exists_openAfter?_take hinner d
  have hcount := openAfter?_eq hk
  rw [Nat.add_assoc, extract_front, excess_opening _ ht, List.take_append_of_le_length (by omega)]
  omega

theorem clearBetween_front (hinner : ∀ u ∈ inner, b.ends u.kind = false) :
    b.ClearBetween (front ++ t :: (inner ++ rest)) front.length
      (front.length + 1 + inner.length) := by
  intro m u hlt hm hu
  obtain ⟨d, rfl⟩ := Nat.exists_eq_add_of_lt hlt
  have hd : d < inner.length := by omega
  rw [List.getElem?_append_right (by omega), Nat.add_assoc, Nat.add_sub_cancel_left,
    List.getElem?_cons_succ, List.getElem?_append_left hd] at hu
  exact hinner u (List.mem_of_getElem? hu)

/-- No bracket closes the one in front of tokens that leave it open, up to what ends a search. -/
theorem ClosedAt.not_clearBetween (ht : t.kind = b.opening) (hinner : b.openAfter? 0 inner = some n)
    (hends : ∀ u ∈ rest.head?, b.ends u.kind = true) {j : Nat}
    (h : b.ClosedAt (front ++ t :: (inner ++ rest)) front.length j) :
    ¬ b.ClearBetween (front ++ t :: (inner ++ rest)) front.length j := by
  intro hclear
  have hj : front.length + inner.length < j := by
    refine Nat.lt_of_not_le fun hle => ?_
    exact Int.ne_of_gt (excess_extract_pos ht hinner (Nat.le_of_lt h.lt) hle) h.balanced
  have hlength := h.lt_length
  simp only [List.length_append, List.length_cons] at hlength
  obtain ⟨u, rest, rfl⟩ := List.exists_cons_of_length_pos (l := rest) (by omega)
  have hu := hends u rfl
  rcases Nat.lt_or_eq_of_le (Nat.succ_le_of_lt hj) with hlt | rfl
  · -- The end of the search stands in front of the closing bracket.
    have hget :
        (front ++ t :: (inner ++ u :: rest))[front.length + inner.length + 1]? = some u := by
      rw [List.getElem?_append_right (by omega), Nat.add_assoc, Nat.add_sub_cancel_left,
        List.getElem?_cons_succ, List.getElem?_append_right (Nat.le_refl _), Nat.sub_self]
      rfl
    exact absurd (hclear _ u (by omega) hlt hget) (by simp [hu])
  · -- The end of the search is no closing bracket itself.
    have hcount := openAfter?_eq hinner
    have hbalanced := h.balanced
    rw [Nat.succ_eq_add_one, Nat.add_assoc, Nat.add_assoc, ← Nat.add_assoc inner.length,
      extract_front, List.take_append, List.take_of_length_le (by omega), Nat.add_sub_cancel_left,
      List.take_succ_cons, List.take_zero, excess_opening _ ht, excess_append, excess_ends _ hu,
      excess_nil] at hbalanced
    omega

theorem StopsAt.le_length {ts : List Token} {i stop : Nat} (h : b.StopsAt ts i stop) :
    stop ≤ ts.length := by
  cases h with
  | closed closedAt _ => exact closedAt.lt_length
  | ended _ _ le_length _ _ => exact le_length

/-- **A search stops where it has to.** -/
theorem skip_stopsAt {ts : List Token} {i : Nat} (hi : ts[i]? = some t) (ht : t.kind = b.opening) :
    ∃ stop, b.skip 1 (ts.drop (i + 1)) = ts.drop stop ∧ b.StopsAt ts i stop := by
  obtain ⟨front, behind, rfl, rfl⟩ := exists_front hi
  rw [drop_front]
  have hfinds := skip_finds b 0 behind
  generalize b.skip 1 behind = rest at hfinds
  cases hfinds with
  | @closed inner close split closes inner_open =>
    subst split
    refine ⟨front.length + 1 + inner.length + 1, ?_, .closed ⟨by omega, ?_, ?_, ?_⟩
      (clearBetween_front (openAfter?_clear inner_open))⟩
    · rw [Nat.add_assoc, drop_front_add, ← List.drop_drop, List.drop_left]
      rfl
    · simp only [List.length_append, List.length_cons]
      omega
    · have hcount := openAfter?_eq inner_open
      rw [Nat.add_assoc, Nat.add_assoc, Nat.add_comm 1, extract_front, List.take_append,
        List.take_of_length_le (by omega), Nat.add_sub_cancel_left, List.take_succ_cons,
        List.take_zero, excess_opening _ ht, excess_append, excess_closing _ closes, excess_nil]
      omega
    · intro m hm hmlt
      exact Int.ne_of_gt (excess_extract_pos ht inner_open hm (by omega))
  | @ended inner n split inner_open ends =>
    subst split
    refine ⟨front.length + 1 + inner.length, ?_,
      .ended (fun j hj => hj.not_clearBetween ht inner_open ends) (by omega) ?_
        (clearBetween_front (openAfter?_clear inner_open)) ?_⟩
    · rw [drop_front_add, List.drop_left]
    · simp only [List.length_append, List.length_cons]
      omega
    · intro u hu
      refine ends u ?_
      rwa [List.getElem?_append_right (by omega), Nat.add_assoc, Nat.add_sub_cancel_left,
        Nat.add_comm, List.getElem?_cons_succ, List.getElem?_append_right (Nat.le_refl _),
        Nat.sub_self, ← List.head?_eq_getElem?] at hu

end Indices

end Brackets

end PageLint
