import Mathlib.Data.List.TakeWhile
import PageLint.Proofs.Comments.Pages
import PageLint.Proofs.Regions.Statements

/-!
# Pages in chunks

A page is markup, token by token, and whole scripts. Reading it is adding one chunk after the
other, where a script adds what its tokens alone give. Nothing else passes from a script to what
follows it.

* `chunks` — the tokens outside scripts and the scripts of a page
* `Progress.readFrom?_chunks` — reading a page is adding its chunks, up to what is noted on the way
* `readTokens?_shows`, `readPage?_shows` — the same of a page
-/

namespace PageLint

/-! ## Chunks -/

/-- A token outside scripts, or a script: its opening tag and the tokens inside it. -/
inductive Chunk where
  | markup (t : Token)
  | script (opening : Token) (inside : List Token)

/-- The tokens inside a script that has just been opened. -/
def insideOf (ts : List Token) : List Token := ts.takeWhile fun t => !t.endsScript

/-- The tokens from the end of a script on that has just been opened. -/
def endOf (ts : List Token) : List Token := ts.dropWhile fun t => !t.endsScript

/-- The chunks of a page up to the end of the input. -/
def chunks (ts : List Token) : List Chunk :=
  match ts with
  | [] => []
  | t :: ts =>
    if t.kind == .eof then []
    else if t.kind == .scriptOpen then .script t (insideOf ts) :: chunks (endOf ts)
    else .markup t :: chunks ts
termination_by ts.length
decreasing_by
  · exact Nat.lt_succ_of_le (List.dropWhile_suffix _).length_le
  · exact Nat.lt_succ_self _

theorem insideOf_append_endOf (ts : List Token) : insideOf ts ++ endOf ts = ts :=
  List.takeWhile_append_dropWhile

theorem inside_insideOf (ts : List Token) : Inside (insideOf ts) := by
  intro t ht
  simpa using List.mem_takeWhile_imp ht

theorem ended_endOf (ts : List Token) : Ended (endOf ts) := by
  intro t ht
  have hstop := List.head?_dropWhile_not (fun t : Token => !t.endsScript) ts
  rw [← endOf, Option.mem_def.1 ht] at hstop
  simpa using hstop

/-- Tokens inside a script and its end are told apart. -/
theorem insideOf_append {inside tail : List Token} (hinside : Inside inside) (htail : Ended tail) :
    insideOf (inside ++ tail) = inside ∧ endOf (inside ++ tail) = tail := by
  have hpass : ∀ t ∈ inside, (!t.endsScript) = true := by
    intro t ht
    simp [hinside t ht]
  have hstop : insideOf tail = [] ∧ endOf tail = tail := by
    cases tail with
    | nil => exact ⟨rfl, rfl⟩
    | cons t ts =>
      have ht : t.endsScript = true := htail t rfl
      simp [insideOf, endOf, ht]
  refine ⟨?_, ?_⟩
  · rw [insideOf, List.takeWhile_append_of_pos hpass, ← insideOf, hstop.1, List.append_nil]
  · rw [endOf, List.dropWhile_append_of_pos hpass, ← endOf, hstop.2]

theorem chunks_eof {t : Token} (h : t.kind = .eof) (ts : List Token) : chunks (t :: ts) = [] := by
  rw [chunks, if_pos (by simpa using h)]

theorem chunks_script {t : Token} (h : t.kind = .scriptOpen) (ts : List Token) :
    chunks (t :: ts) = .script t (insideOf ts) :: chunks (endOf ts) := by
  rw [chunks, if_neg (by simp [h]), if_pos (by simpa using h)]

theorem chunks_markup {t : Token} (he : t.kind ≠ .eof) (ho : t.kind ≠ .scriptOpen)
    (ts : List Token) : chunks (t :: ts) = .markup t :: chunks ts := by
  rw [chunks, if_neg (by simpa using he), if_neg (by simpa using ho)]

theorem Ended.append_eof {ts : List Token} (h : Ended ts) {eof : Token} (heof : eof.kind = .eof)
    (rest : List Token) : Ended (ts ++ eof :: rest) := by
  intro t ht
  cases ts with
  | nil =>
    obtain rfl : eof = t := Option.some.inj ht
    simp [Token.endsScript, heof]
  | cons u us => exact h t ht

/-- **The end of the input adds no chunk**, and neither does what stands behind it. -/
theorem chunks_append_eof {eof : Token} (heof : eof.kind = .eof) (ts rest : List Token) :
    chunks (ts ++ eof :: rest) = chunks ts := by
  fun_induction chunks ts with
  | case1 => rw [List.nil_append, chunks_eof heof]
  | case2 t ts he => rw [List.cons_append, chunks, if_pos he]
  | case3 t ts he ho ih =>
    -- The token ends an open script as well as the last token does.
    obtain ⟨hinside, hend⟩ :=
      insideOf_append (inside_insideOf ts) ((ended_endOf ts).append_eof heof rest)
    rw [← List.append_assoc, insideOf_append_endOf] at hinside hend
    rw [List.cons_append, chunks, if_neg he, if_pos ho, hinside, hend, ih]
  | case4 t ts he ho ih => rw [List.cons_append, chunks, if_neg he, if_neg ho, ih]

/-! ## Adding a chunk -/

/-- What the tokens inside a script give. -/
def harvestOf (config : Config) (inside : List Token) : Harvest :=
  (scriptFrom? config inside).getD { rest := inside }

/-- The node of a script. -/
def scriptNode (config : Config) (opening : Token) (inside : List Token) : Node :=
  .script { location := opening.location } (harvestOf config inside).statements

namespace Progress

/-- Adds a chunk to what has been read outside scripts. -/
def add (config : Config) (p : Progress) : Chunk → Progress
  | .markup t => p.readMarkup config t
  | .script opening inside =>
    { p with
      forest := p.forest.addLeaf (scriptNode config opening inside)
      declaredNames := p.declaredNames ++ (harvestOf config inside).declared }

/-- Adding chunks does the same without events. -/
theorem add_silent (config : Config) (p : Progress) (c : Chunk) :
    (p.add config c).silent = (p.silent.add config c).silent := by
  cases c with
  | markup t => exact readMarkup_silent config p t
  | script opening inside => rfl

theorem foldl_add_silent (config : Config) (cs : List Chunk) {p q : Progress}
    (h : p.silent = q.silent) : (cs.foldl (add config) p).silent =
      (cs.foldl (add config) q).silent := by
  induction cs generalizing p q with
  | nil => exact h
  | cons c cs ih => exact ih (silent_congr (add_silent config · c) h)

/-- Where a script is over, what has been read goes on outside it: the token that ends the script
does nothing there. -/
theorem readFrom?_ended (config : Config) {p : Progress} {region : Region}
    (h : p.region = some region) {tail : List Token} (htail : Ended tail) :
    p.readFrom? config tail = (p.closeScript region).readFrom? config tail := by
  have hnone := closeScript_region p region
  have hfinish : p.finish = (p.closeScript region).finish := by
    rw [finish, finish, h, hnone]
  rcases htail.cases with rfl | ⟨t, ts, rfl, hk | hk⟩
  · rw [readFrom?, readFrom?, hfinish]
  · rw [readFrom?, readFrom?, if_pos (by simpa using hk), if_pos (by simpa using hk), hfinish]
  · rw [readFrom?_cons (by simp [hk]), readFrom?_cons (by simp [hk]), turn?, turn?, h, hnone]
    simp [readMarkup, hk]

/-- A script that ends gives its node to the innermost open tag. -/
theorem closeScript_collect_silent {p : Progress} (hp : p.region = none) (region : Region)
    (found : Harvest) :
    let statements := region.statements ++ found.statements
    ((p.collect region found).closeScript { region with statements }).silent =
      { p.silent with
        forest := p.forest.addLeaf (.script { location := region.location } statements)
        declaredNames := p.declaredNames ++ found.declared } := by
  intro statements
  cases p with
  | mk forest _ _ _ _ _ region' _ =>
    obtain rfl : region' = none := hp
    cases hopen : forest.openTags.frames with
    | nil =>
      simp only [closeScript, collect, OpenTags.isEmpty, hopen, List.isEmpty_nil, if_true,
        Forest.addLeaf]
      split <;> rfl
    | cons f fs => simp [closeScript, collect, OpenTags.isEmpty, hopen, silent]

/-- A script is added as a whole. -/
theorem readFrom?_scriptOpen {config : Config} (hlimit : 1 ≤ config.maxExpressionTokens)
    {p : Progress} (hp : p.region = none) {opening : Token} (ho : opening.kind = .scriptOpen)
    (ts : List Token) : ∃ q : Progress,
      p.readFrom? config (opening :: ts) = q.readFrom? config (endOf ts) ∧ q.region = none ∧
      q.silent = (p.add config (.script opening (insideOf ts))).silent := by
  obtain ⟨alone, found, halone, hend, hfound, hbefore⟩ :=
    scriptFrom?_before hlimit (ended_endOf ts) (inside_insideOf ts)
  rw [insideOf_append_endOf] at hfound
  have hrest : found.rest = endOf ts := by rw [hbefore.rest, hend, List.nil_append]
  have hharvest : harvestOf config (insideOf ts) = alone := by rw [harvestOf, halone]; rfl
  let region : Region := { location := opening.location }
  let start : Progress := { p with region := some region }
  have hread : p.readFrom? config (opening :: ts) = start.readFrom? config ts := by
    rw [readFrom?_cons (by simp [ho]), turn?, hp]
    simp [readMarkup, ho, start, region]
  refine ⟨(start.collect region found).closeScript { region with statements := found.statements },
    ?_, closeScript_region _ _, ?_⟩
  · rw [hread, readFrom?_script rfl, hfound, Option.bind_some, hrest]
    exact readFrom?_ended config rfl (ended_endOf ts)
  · have hsilent := closeScript_collect_silent hp region found
    rw [hbefore.statements, hbefore.declared, ← hharvest] at hsilent
    rw [hbefore.statements, ← hharvest]
    exact hsilent

/-- Outside scripts nothing is left to finish. -/
theorem finish_eq_self {p : Progress} (hp : p.region = none) : p.finish = p := by
  rw [finish, hp]

/-- **Reading a page is adding its chunks**, up to what is noted on the way. -/
theorem readFrom?_chunks {config : Config} (hlimit : 1 ≤ config.maxExpressionTokens)
    {p : Progress} (hp : p.region = none) (ts : List Token) : ∃ q,
      p.readFrom? config ts = some q ∧ q.silent = ((chunks ts).foldl (add config) p).silent := by
  fun_induction chunks ts generalizing p with
  | case1 =>
    rw [readFrom?, finish_eq_self hp]
    exact ⟨p, rfl, rfl⟩
  | case2 t ts he =>
    rw [readFrom?, if_pos he, finish_eq_self hp]
    exact ⟨p, rfl, rfl⟩
  | case3 t ts he ho ih =>
    obtain ⟨q, hread, hq, hsilent⟩ := readFrom?_scriptOpen hlimit hp (by simpa using ho) ts
    obtain ⟨last, hlast, hfold⟩ := ih hq
    refine ⟨last, hread.trans hlast, ?_⟩
    rw [List.foldl_cons, hfold]
    exact foldl_add_silent config _ hsilent
  | case4 t ts he ho ih =>
    have hregion : (p.readMarkup config t).region = none := by
      have := readMarkup_region config hp t
      rw [← Option.not_isSome_iff_eq_none, this]
      exact ho
    obtain ⟨last, hlast, hfold⟩ := ih hregion
    refine ⟨last, ?_, ?_⟩
    · rw [readFrom?_cons (by simpa using he), turn?, hp]
      exact hlast
    · rw [List.foldl_cons]
      exact hfold

theorem Numbered.add {p : Progress} (h : p.Numbered) (config : Config) (c : Chunk) :
    (p.add config c).Numbered := by
  cases c with
  | markup t => exact h.readMarkup config t
  | script opening inside => exact h.of_items (serials_addLeaf _ _) rfl rfl

theorem Numbered.foldl_add {p : Progress} (h : p.Numbered) (config : Config) (cs : List Chunk) :
    (cs.foldl (Progress.add config) p).Numbered := by
  induction cs generalizing p with
  | nil => exact h
  | cons c cs ih => exact ih (h.add config c)

end Progress

/-! ## Pages -/

/-- What has been read of a page when all its chunks have been added. -/
def progressOf (config : Config) (ts : List Token) : Progress :=
  (chunks ts).foldl (Progress.add config) {}

theorem numbered_progressOf (config : Config) (ts : List Token) : (progressOf config ts).Numbered :=
  (Progress.numbered_empty []).foldl_add config _

/-- A page shows what has been read of it. -/
structure Page.Shows (file : Option String) (page : Page) (p : Progress) : Prop where
  document : p.document? file = some page.document
  elementIds : page.elementIds = p.elementIds
  declaredNames : page.declaredNames = p.declaredNames
  openTags : page.openTags = p.forest.openTags.names

/-- Reading tokens gives a page that shows its chunks, whatever has been noted before. -/
theorem readFrom?_shows {config : Config} (hlimit : 1 ≤ config.maxExpressionTokens)
    (events : List Event) (ts : List Token) (file : Option String) : ∃ page,
      (({ events } : Progress).readFrom? config ts).bind (fun p => p.page? file) = some page ∧
      page.Shows file (progressOf config ts) := by
  obtain ⟨q, hq, hfold⟩ := Progress.readFrom?_chunks hlimit (p := { events }) rfl ts
  have hsilent : q.silent = (progressOf config ts).silent :=
    hfold.trans (Progress.foldl_add_silent config _ rfl)
  obtain ⟨page, hpage⟩ := ((Progress.numbered_empty events).readFrom? hq).page?_isSome file
  refine ⟨page, by rw [hq, Option.bind_some, hpage], ?_⟩
  obtain ⟨d, hd, rfl⟩ := Option.map_eq_some_iff.1 hpage
  refine ⟨?_, ?_, ?_, ?_⟩
  · show (progressOf config ts).silent.document? file = some d
    rw [← hsilent]
    exact hd
  · show q.silent.elementIds = (progressOf config ts).silent.elementIds
    rw [hsilent]
  · show q.silent.declaredNames = (progressOf config ts).silent.declaredNames
    rw [hsilent]
  · show q.silent.forest.openTags.names = (progressOf config ts).silent.forest.openTags.names
    rw [hsilent]

/-- **The page of a list of tokens is made of its chunks.** -/
theorem readTokens?_shows {config : Config} (hlimit : 1 ≤ config.maxExpressionTokens)
    (ts : List Token) (file : Option String) : ∃ page,
      readTokens? config ts file = some page ∧ page.Shows file (progressOf config ts) :=
  readFrom?_shows hlimit [] ts file

/-- **The page of a source is made of the chunks of its tokens.** -/
theorem readPage?_shows {config : Config} (hlimit : 1 ≤ config.maxExpressionTokens)
    (source : String) (file : Option String) : ∃ page,
      readPage? config source file = some page ∧
      page.Shows file (progressOf config (tokenize source file)) :=
  readFrom?_shows hlimit (scan source file).events (tokenize source file) file

end PageLint
