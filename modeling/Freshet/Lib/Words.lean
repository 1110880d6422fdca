/-
**Words**: `str.split()` and `" ".join(…)`.

`collapse`, which the adapter applies to every text, joins the words again (`collapse_eq_unwords`). So
whitespace around a text does not matter to it, and a text has the words of its parts
(`words_append`).
-/

import Freshet.Lib.PyText

namespace Freshet.Lib

/-! ### The pieces of a text -/

/-- The words of a text, `current` being the one that has begun. -/
def wordsFrom (current : List Char) : List Char → List (List Char)
  | [] => if current = [] then [] else [current]
  | c :: cs =>
    if isSpace c then if current = [] then wordsFrom [] cs else current :: wordsFrom [] cs
    else wordsFrom (current ++ [c]) cs

/-- `text.split()`. -/
def words (text : List Char) : List (List Char) := wordsFrom [] text

/-- `" ".join(words)`. -/
def unwords : List (List Char) → List Char
  | [] => []
  | [word] => word
  | word :: later => word ++ ' ' :: unwords later

@[simp] theorem words_nil : words [] = [] := rfl

theorem wordsFrom_space (current : List Char) {c : Char} (cs : List Char)
    (space : isSpace c = true) :
    wordsFrom current (c :: cs) = wordsFrom current [] ++ words cs := by
  show (if isSpace c = true then if current = [] then wordsFrom [] cs
    else current :: wordsFrom [] cs else _) = (if current = [] then [] else [current]) ++ _
  rw [if_pos space]
  split_ifs <;> rfl

theorem wordsFrom_letter (current : List Char) {c : Char} (cs : List Char)
    (letter : isSpace c = false) : wordsFrom current (c :: cs) = wordsFrom (current ++ [c]) cs :=
  if_neg (Bool.eq_false_iff.mp letter)

theorem wordsFrom_nil {current : List Char} (full : current ≠ []) :
    wordsFrom current [] = [current] := if_neg full

@[simp] theorem unwords_nil : unwords [] = [] := rfl

theorem unwords_cons {word : List Char} {later : List (List Char)} (more : later ≠ []) :
    unwords (word :: later) = word ++ ' ' :: unwords later := by
  cases later with
  | nil => exact absurd rfl more
  | cons _ _ => rfl

theorem unwords_eq_intercalate (items : List (List Char)) : unwords items = [' '].intercalate items := by
  induction items with
  | nil => rfl
  | cons word later ih =>
    cases later with
    | nil => simp [unwords]
    | cons next rest =>
      rw [unwords_cons (List.cons_ne_nil _ _), ih]
      simp [List.intercalate]

/-- A word has characters, and no space among them. -/
def IsWord (word : List Char) : Prop := word ≠ [] ∧ ∀ c ∈ word, isSpace c = false

theorem isWord_of_mem_wordsFrom {current text word : List Char}
    (clear : ∀ c ∈ current, isSpace c = false) (member : word ∈ wordsFrom current text) :
    IsWord word := by
  induction text generalizing current with
  | nil =>
    unfold wordsFrom at member
    split_ifs at member with empty
    · exact absurd member List.not_mem_nil
    · obtain rfl := List.mem_singleton.mp member
      exact ⟨empty, clear⟩
  | cons c cs ih =>
    have none : ∀ d ∈ ([] : List Char), isSpace d = false := fun _ member => by cases member
    unfold wordsFrom at member
    split_ifs at member with space empty
    · exact ih none member
    · rcases List.mem_cons.mp member with rfl | later
      · exact ⟨empty, clear⟩
      · exact ih none later
    · refine ih ?_ member
      intro d inside
      rcases List.mem_append.mp inside with old | new
      · exact clear d old
      · obtain rfl := List.mem_singleton.mp new
        exact Bool.eq_false_iff.mpr space

theorem isWord_of_mem_words {text word : List Char} (member : word ∈ words text) : IsWord word :=
  isWord_of_mem_wordsFrom (by simp) member

theorem wordsFrom_append (current before : List Char) {c : Char} (after : List Char)
    (space : isSpace c = true) :
    wordsFrom current (before ++ c :: after) = wordsFrom current before ++ words after := by
  induction before generalizing current with
  | nil => exact wordsFrom_space current after space
  | cons d before ih =>
    rw [List.cons_append]
    cases here : isSpace d with
    | true =>
      rw [wordsFrom_space _ _ here, wordsFrom_space _ _ here, List.append_assoc]
      exact congrArg (wordsFrom current [] ++ ·) (ih [])
    | false => rw [wordsFrom_letter _ _ here, wordsFrom_letter _ _ here, ih]

/-- **A space separates words.** -/
theorem words_append (before : List Char) {c : Char} (after : List Char)
    (space : isSpace c = true) : words (before ++ c :: after) = words before ++ words after :=
  wordsFrom_append [] before after space

theorem words_spaces_append {spaces : List Char} (every : ∀ c ∈ spaces, isSpace c = true)
    (text : List Char) : words (spaces ++ text) = words text := by
  induction spaces with
  | nil => rfl
  | cons c spaces ih =>
    rw [List.forall_mem_cons] at every
    show words ([] ++ c :: (spaces ++ text)) = _
    rw [words_append [] _ every.1, words_nil, List.nil_append, ih every.2]

theorem words_append_spaces (text : List Char) {spaces : List Char}
    (every : ∀ c ∈ spaces, isSpace c = true) : words (text ++ spaces) = words text := by
  cases spaces with
  | nil => rw [List.append_nil]
  | cons c spaces =>
    rw [List.forall_mem_cons] at every
    have none := words_spaces_append every.2 []
    rw [List.append_nil] at none
    rw [words_append text spaces every.1, none, words_nil, List.append_nil]

theorem wordsFrom_word {current word : List Char} (clear : ∀ c ∈ word, isSpace c = false) :
    wordsFrom current word = wordsFrom (current ++ word) [] := by
  induction word generalizing current with
  | nil => rw [List.append_nil]
  | cons c word ih =>
    rw [List.forall_mem_cons] at clear
    rw [wordsFrom_letter _ _ clear.1, ih clear.2, List.append_assoc, List.singleton_append]

theorem words_word {word : List Char} (isWord : IsWord word) : words word = [word] := by
  unfold words
  rw [wordsFrom_word isWord.2, List.nil_append, wordsFrom_nil isWord.1]

/-- **Joined words are found again.** -/
theorem words_unwords {items : List (List Char)} (every : ∀ word ∈ items, IsWord word) :
    words (unwords items) = items := by
  induction items with
  | nil => rfl
  | cons word later ih =>
    rw [List.forall_mem_cons] at every
    cases later with
    | nil => exact words_word every.1
    | cons next later =>
      rw [unwords_cons (List.cons_ne_nil _ _), words_append _ _ (by decide), words_word every.1,
        ih every.2, List.singleton_append]

/-! ### Collapsing is joining the words -/

theorem squeeze_true (text : List Char) :
    squeeze true text = squeeze false (text.dropWhile isSpace) := by
  induction text with
  | nil => rfl
  | cons c cs ih =>
    by_cases space : isSpace c = true
    · rw [squeeze, if_pos space, if_pos rfl, List.dropWhile_cons_of_pos space, ih]
    · rw [squeeze, if_neg space, List.dropWhile_cons_of_neg space, squeeze, if_neg space]

/-- **The recursive `squeeze` is the substitution.** -/
theorem squeeze_eq_sub (text : List Char) :
    (Regex.some isSpace).sub (fun _ => [' ']) text = squeeze false text := by
  induction size : text.length using Nat.strong_induction_on generalizing text with
  | _ n ih =>
    cases text with
    | nil => rfl
    | cons c cs =>
      by_cases space : isSpace c = true
      · have run : (Regex.some isSpace).first (c :: cs) =
            some (⟨c :: cs.takeWhile isSpace, []⟩, cs.dropWhile isSpace) := by
          have split : c :: cs = (c :: cs.takeWhile isSpace) ++ cs.dropWhile isSpace := by
            rw [List.cons_append, List.takeWhile_append_dropWhile]
          have leads : (Regex.some isSpace).Leads ⟨(c :: cs.takeWhile isSpace) ++
              cs.dropWhile isSpace, []⟩ ⟨cs.dropWhile isSpace, []⟩ := by
            have inner : (Regex.seq (Regex.many isSpace) .nothing).Leads
                ⟨cs.takeWhile isSpace ++ cs.dropWhile isSpace, []⟩ ⟨cs.dropWhile isSpace, []⟩ := by
              refine .many (fun d member => List.mem_takeWhile_imp member) ?_ (Regex.leads_nothing _)
              intro d ds stop
              have none := List.head?_dropWhile_not isSpace cs
              rw [stop] at none
              simpa using none
            refine .only (if_pos space) ?_
            unfold Regex.Leads at inner ⊢
            rw [← inner]
            exact congrArg List.head? (List.flatMap_singleton' _).symm
          rw [split]
          exact Regex.first_of_leads leads
        rw [Regex.sub_hit run (List.cons_ne_nil _ _), squeeze, if_pos space, if_neg (by simp),
          squeeze_true, List.singleton_append]
        refine congrArg (' ' :: ·) (ih _ ?_ _ rfl)
        rw [← size, List.length_cons]
        exact Nat.lt_succ_of_le (List.length_dropWhile_le _ _)
      · have none : (Regex.some isSpace).first (c :: cs) = none := by
          rw [Regex.first_eq_none]
          show ((Regex.one isSpace).ways _).flatMap _ = []
          rw [Regex.ways_one_cons, if_neg space]
          rfl
        rw [Regex.sub_plain none, squeeze, if_neg space]
        exact congrArg (c :: ·) (ih cs.length (by rw [← size]; exact Nat.lt_succ_self _) cs rfl)

theorem words_dropWhile (text : List Char) : words (text.dropWhile isSpace) = words text := by
  have split := @words_spaces_append (text.takeWhile isSpace)
    (fun c member => List.mem_takeWhile_imp member) (text.dropWhile isSpace)
  rw [List.takeWhile_append_dropWhile] at split
  exact split.symm

/-- What is left after the leading space begins with a visible character. -/
theorem visible_of_dropWhile {text : List Char} {d : Char} {ds : List Char}
    (rest : text.dropWhile isSpace = d :: ds) : isSpace d = false := by
  have none := List.head?_dropWhile_not isSpace text
  rw [rest] at none
  simpa using none

theorem rdropWhile_word {word : List Char} (isWord : IsWord word) :
    word.rdropWhile isSpace = word := by
  rw [List.rdropWhile_eq_self_iff]
  intro full
  rw [isWord.2 _ (List.getLast_mem full)]
  exact Bool.false_ne_true

/-- A word that has begun, and what follows it. -/
theorem rdropWhile_squeeze {current : List Char} (isWord : IsWord current) (text : List Char) :
    (current ++ squeeze false text).rdropWhile isSpace = unwords (wordsFrom current text) := by
  induction size : text.length using Nat.strong_induction_on generalizing current text with
  | _ n ih =>
    cases text with
    | nil =>
      rw [wordsFrom_nil isWord.1, squeeze, List.append_nil, rdropWhile_word isWord]
      rfl
    | cons c cs =>
      have shorter : cs.length < n := by
        rw [← size]
        exact Nat.lt_succ_self _
      cases space : isSpace c with
      | false =>
        have longer : IsWord (current ++ [c]) := by
          refine ⟨List.append_ne_nil_of_left_ne_nil isWord.1 _, fun d member => ?_⟩
          rcases List.mem_append.mp member with old | new
          · exact isWord.2 d old
          · obtain rfl := List.mem_singleton.mp new
            exact space
        rw [wordsFrom_letter _ _ space, ← ih _ shorter longer cs rfl, squeeze,
          if_neg (by simp [space]), List.append_assoc, List.singleton_append]
      | true =>
        rw [wordsFrom_space _ _ space, wordsFrom_nil isWord.1, List.singleton_append, squeeze,
          if_pos space, if_neg (by simp), squeeze_true, ← words_dropWhile cs]
        cases rest : cs.dropWhile isSpace with
        | nil =>
          have trailing := List.rdropWhile_concat_pos isSpace current ' ' (by decide)
          rw [squeeze, trailing, rdropWhile_word isWord]
          rfl
        | cons d ds =>
          have visible := visible_of_dropWhile rest
          have smaller : ds.length < n := by
            have most := List.length_dropWhile_le isSpace cs
            rw [rest, List.length_cons] at most
            omega
          have one : IsWord [d] := ⟨List.cons_ne_nil _ _, by simp [visible]⟩
          have later := ih _ smaller one ds rfl
          have whole : words (d :: ds) = wordsFrom [d] ds := wordsFrom_letter [] ds visible
          have some' : wordsFrom [d] ds ≠ [] := by
            intro empty
            rw [empty, List.singleton_append] at later
            have kept := @rdropWhile_stop_append [] d (squeeze false ds) visible
            rw [List.nil_append, later] at kept
            exact absurd kept (by simp)
          have stop := @rdropWhile_stop_append (current ++ [' ']) d (squeeze false ds) visible
          have stop' := @rdropWhile_stop_append [] d (squeeze false ds) visible
          rw [List.nil_append, List.nil_append] at stop'
          rw [List.singleton_append, stop'] at later
          rw [List.append_assoc, List.append_assoc, List.singleton_append,
            List.singleton_append] at stop
          rw [squeeze, if_neg (by simp [visible]), whole, unwords_cons some', ← later, stop]

theorem dropWhile_squeeze (text : List Char) :
    (squeeze false text).dropWhile isSpace = squeeze false (text.dropWhile isSpace) := by
  have visible : ∀ {d ds}, isSpace d = false →
      (squeeze false (d :: ds)).dropWhile isSpace = squeeze false (d :: ds) := by
    intro d ds here
    rw [squeeze, if_neg (by simp [here]), List.dropWhile_cons_of_neg (by simp [here])]
  cases text with
  | nil => rfl
  | cons c cs =>
    cases space : isSpace c with
    | false => rw [List.dropWhile_cons_of_neg (by simp [space]), visible space]
    | true =>
      rw [List.dropWhile_cons_of_pos space, squeeze, if_pos space, if_neg (by simp),
        List.dropWhile_cons_of_pos (by decide), squeeze_true]
      cases rest : cs.dropWhile isSpace with
      | nil => rfl
      | cons d ds => exact visible (visible_of_dropWhile rest)

/-- **Collapsing a text is joining its words.** -/
theorem collapse_eq_unwords (text : List Char) : collapse text = unwords (words text) := by
  unfold collapse strip
  rw [squeeze_eq_sub, dropWhile_squeeze, ← words_dropWhile text]
  cases rest : text.dropWhile isSpace with
  | nil => rfl
  | cons d ds =>
    have visible := visible_of_dropWhile rest
    have one : IsWord [d] := ⟨List.cons_ne_nil _ _, by simp [visible]⟩
    rw [squeeze, if_neg (by simp [visible]), ← List.singleton_append, rdropWhile_squeeze one]
    exact congrArg unwords (wordsFrom_letter [] ds visible).symm

theorem words_collapse (text : List Char) : words (collapse text) = words text := by
  rw [collapse_eq_unwords, words_unwords fun word member => isWord_of_mem_words member]

/-! ### What is kept -/

theorem flatten_wordsFrom {current : List Char} (clear : ∀ c ∈ current, isSpace c = false)
    (text : List Char) : (wordsFrom current text).flatten =
      current ++ text.filter fun c => !isSpace c := by
  induction text generalizing current with
  | nil =>
    unfold wordsFrom
    split_ifs with empty
    · rw [empty]
      rfl
    · simp
  | cons c cs ih =>
    cases space : isSpace c with
    | true =>
      have tail : (words cs).flatten = cs.filter fun c => !isSpace c := ih (by simp)
      rw [wordsFrom_space _ _ space, List.flatten_append, tail,
        List.filter_cons_of_neg (by simp [space])]
      congr 1
      unfold wordsFrom
      split_ifs with empty
      · rw [empty]
        rfl
      · simp
    | false =>
      rw [wordsFrom_letter _ _ space, List.filter_cons_of_pos (by simp [space]), ih]
      · simp
      · intro d member
        rcases List.mem_append.mp member with old | new
        · exact clear d old
        · obtain rfl := List.mem_singleton.mp new
          exact space

theorem flatten_words (text : List Char) : (words text).flatten = text.filter fun c => !isSpace c :=
  flatten_wordsFrom (by simp) text

/-- **Collapsing keeps everything but space.** -/
theorem filter_collapse (text : List Char) :
    (collapse text).filter (fun c => !isSpace c) = text.filter fun c => !isSpace c := by
  rw [← flatten_words, words_collapse, flatten_words]

/-- What is no space is in a word. -/
theorem words_ne_nil_of_mem {text : List Char} {c : Char} (member : c ∈ text)
    (visible : isSpace c = false) : words text ≠ [] := by
  intro none
  have kept := flatten_words text
  rw [none] at kept
  have among : c ∈ text.filter fun c => !isSpace c :=
    List.mem_filter.mpr ⟨member, by rw [visible]; rfl⟩
  rw [← kept] at among
  cases among

/-! ### Tidy texts -/

/-- Words with one space between two of them, and nothing around them. -/
def Tidy (text : List Char) : Prop := unwords (words text) = text

theorem tidy_unwords {items : List (List Char)} (every : ∀ word ∈ items, IsWord word) :
    Tidy (unwords items) := by
  unfold Tidy
  rw [words_unwords every]

/-- **A space among joined words stands between two of them.** -/
theorem unwords_cut {items : List (List Char)} {before after : List Char} {c : Char}
    (every : ∀ word ∈ items, IsWord word) (space : isSpace c = true)
    (eq : unwords items = before ++ c :: after) :
    ∃ left right, items = left ++ right ∧ left ≠ [] ∧ right ≠ [] ∧ c = ' ' ∧
      before = unwords left ∧ after = unwords right := by
  have outside : ∀ {word u v : List Char}, IsWord word → word ≠ u ++ c :: v := by
    intro word u v isWord same
    have clear := isWord.2 c (by rw [same]; exact List.mem_append_right _ List.mem_cons_self)
    rw [space] at clear
    exact absurd clear (by decide)
  induction items generalizing before with
  | nil => exact absurd eq (by simp)
  | cons word later ih =>
    obtain ⟨isWord, others⟩ := List.forall_mem_cons.mp every
    by_cases last : later = []
    · subst last
      exact absurd eq (outside isWord)
    rw [unwords_cons last] at eq
    rcases List.append_eq_append_iff.mp eq with ⟨more, cut, rest⟩ | ⟨more, cut, rest⟩
    · cases more with
      | nil =>
        obtain ⟨rfl, same⟩ := List.cons.inj rest
        refine ⟨[word], later, rfl, List.cons_ne_nil _ _, last, rfl, ?_, same.symm⟩
        rw [cut, List.append_nil]
        rfl
      | cons d more =>
        obtain ⟨rfl, same⟩ := List.cons.inj rest
        obtain ⟨left, right, split, full, full', is, rfl, tail⟩ := ih others same
        refine ⟨word :: left, right, by rw [split]; rfl, List.cons_ne_nil _ _, full', is, ?_, tail⟩
        rw [cut, unwords_cons full]
    · cases more with
      | nil =>
        obtain ⟨rfl, same⟩ := List.cons.inj rest
        refine ⟨[word], later, rfl, List.cons_ne_nil _ _, last, rfl, ?_, same⟩
        rw [List.append_nil] at cut
        rw [← cut]
        rfl
      | cons d more =>
        obtain ⟨rfl, -⟩ := List.cons.inj rest
        exact absurd cut (outside isWord)

theorem unwords_ne_nil {items : List (List Char)} (every : ∀ word ∈ items, IsWord word)
    (full : items ≠ []) : unwords items ≠ [] := by
  obtain ⟨word, later, rfl⟩ := List.exists_cons_of_ne_nil full
  have visible := (every word List.mem_cons_self).1
  by_cases last : later = []
  · subst last
    exact visible
  · rw [unwords_cons last]
    exact List.append_ne_nil_of_left_ne_nil visible _

/-- **A tidy text is cut by one space, into tidy texts.** -/
theorem Tidy.cut {before spaces after : List Char} (tidy : Tidy (before ++ (spaces ++ after)))
    (full : spaces ≠ []) (every : ∀ c ∈ spaces, isSpace c = true) :
    Tidy before ∧ Tidy after ∧ spaces = [' '] := by
  obtain ⟨c, more, rfl⟩ := List.exists_cons_of_ne_nil full
  obtain ⟨space, others⟩ := List.forall_mem_cons.mp every
  have isWords : ∀ word ∈ words (before ++ (c :: more ++ after)), IsWord word :=
    fun word member => isWord_of_mem_words member
  obtain ⟨left, right, split, -, full', rfl, rfl, tail⟩ := unwords_cut isWords space tidy
  rw [split] at isWords
  obtain ⟨lefts, rights⟩ := List.forall_mem_append.mp isWords
  cases more with
  | nil =>
    obtain rfl : after = unwords right := tail
    exact ⟨tidy_unwords lefts, tidy_unwords rights, rfl⟩
  | cons d more =>
    -- a second space would stand at the head of the words behind the first
    have head : unwords right = [] ++ d :: (more ++ after) := tail.symm
    obtain ⟨first, rest, same, some, -, -, none, -⟩ :=
      unwords_cut rights (others d List.mem_cons_self) head
    rw [same] at rights
    exact absurd none.symm (unwords_ne_nil (List.forall_mem_append.mp rights).1 some)

theorem strip_tidy {text : List Char} (tidy : Tidy text) : strip text = text := by
  have isWords : ∀ word ∈ words text, IsWord word := fun word member => isWord_of_mem_words member
  have left : text.dropWhile isSpace = text := by
    rw [List.dropWhile_eq_self_iff]
    intro full
    cases text with
    | nil => exact absurd full (Nat.lt_irrefl 0)
    | cons c cs =>
      intro space
      obtain ⟨first, rest, same, some, -, -, none, -⟩ :=
        @unwords_cut _ [] cs c isWords space tidy
      rw [same] at isWords
      exact unwords_ne_nil (List.forall_mem_append.mp isWords).1 some none.symm
  have right : text.rdropWhile isSpace = text := by
    rw [List.rdropWhile_eq_self_iff]
    intro full space
    have eq : unwords (words text) = text.dropLast ++ text.getLast full :: [] :=
      tidy.trans (List.dropLast_append_getLast full).symm
    obtain ⟨first, rest, same, -, some, -, -, none⟩ := unwords_cut isWords space eq
    rw [same] at isWords
    exact unwords_ne_nil (List.forall_mem_append.mp isWords).2 some none.symm
  unfold strip
  rw [left, right]

theorem unwords_append {left right : List (List Char)} (full : left ≠ []) (full' : right ≠ []) :
    unwords (left ++ right) = unwords left ++ ' ' :: unwords right := by
  induction left with
  | nil => exact absurd rfl full
  | cons word later ih =>
    by_cases last : later = []
    · subst last
      exact unwords_cons full'
    · have more : later ++ right ≠ [] := by simp [last]
      rw [List.cons_append, unwords_cons more, ih last, unwords_cons last, List.append_assoc]
      rfl

theorem words_ne_nil {text : List Char} (tidy : Tidy text) (full : text ≠ []) : words text ≠ [] := by
  intro none
  unfold Tidy at tidy
  rw [none] at tidy
  exact full tidy.symm

/-- **Joined texts have the words of the texts.** -/
theorem unwords_eq_flatMap {texts : List (List Char)}
    (every : ∀ text ∈ texts, Tidy text ∧ text ≠ []) :
    unwords texts = unwords (texts.flatMap words) := by
  induction texts with
  | nil => rfl
  | cons text later ih =>
    obtain ⟨⟨tidy, full⟩, others⟩ := List.forall_mem_cons.mp every
    rw [List.flatMap_cons]
    by_cases last : later = []
    · subst last
      rw [List.flatMap_nil, List.append_nil]
      exact tidy.symm
    · obtain ⟨next, rest, rfl⟩ := List.exists_cons_of_ne_nil last
      have more : (next :: rest).flatMap words ≠ [] := by
        rw [List.flatMap_cons]
        obtain ⟨tidy', full'⟩ := others next List.mem_cons_self
        exact List.append_ne_nil_of_left_ne_nil (words_ne_nil tidy' full') _
      rw [unwords_cons last, ih others, unwords_append (words_ne_nil tidy full) more]
      exact congrArg (· ++ _) tidy.symm

/-- Two tidy texts with a space between them. -/
theorem Tidy.join {first second : List Char} (tidy : Tidy first) (full : first ≠ [])
    (tidy' : Tidy second) (full' : second ≠ []) : Tidy (first ++ ' ' :: second) := by
  unfold Tidy
  rw [words_append first second (by decide),
    unwords_append (words_ne_nil tidy full) (words_ne_nil tidy' full')]
  unfold Tidy at tidy tidy'
  rw [tidy, tidy']

/-- Joined words begin with the first of them, joined. -/
theorem unwords_prefix (left right : List (List Char)) : unwords left <+: unwords (left ++ right) := by
  by_cases full : left = []
  · rw [full]
    exact List.nil_prefix
  by_cases full' : right = []
  · exact ⟨[], by rw [full', List.append_nil, List.append_nil]⟩
  · rw [unwords_append full full']
    exact List.prefix_append _ _

/-- Joined words end with the last of them, joined. -/
theorem unwords_suffix (left right : List (List Char)) : unwords right <:+ unwords (left ++ right) := by
  by_cases full' : right = []
  · rw [full']
    exact List.nil_suffix
  by_cases full : left = []
  · exact ⟨[], by rw [full, List.nil_append, List.nil_append]⟩
  · rw [unwords_append full full']
    exact (List.suffix_cons _ _).trans (List.suffix_append _ _)

end Freshet.Lib
