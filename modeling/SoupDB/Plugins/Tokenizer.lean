import SoupDB.Common.Value
import SoupDB.Plugins.Postings

/-!
# SoupDB: words and stems

A text is brought to its normal form and split into words; stopwords are dropped and the other
words are reduced to their stems.  What Python's `unicodedata` and `re` do is given by a
`Words`.

Main facts: no token is empty (`Tokenizer.not_mem_tokens`), and a tokenizer is built again from
its own stopwords (`Tokenizer.init_again`).
-/

namespace SoupDB

open List

/-! ## Stems -/

namespace Stem

def VOWELS : List Char := "aeiouáéíóúü".toList

def UNCHANGED : List String := ["series", "species", "caries", "analysis", "news", "virus"]

/-- Adverb and noun suffixes, with the letters that must be left. -/
def SUFFIXES : List (String × Nat) := [("mente", 4), ("ness", 4), ("ly", 4)]

def endswith (token : List Char) (suffix : String) : Bool := suffix.toList.isSuffixOf token

/-- `token[:-count]`. -/
def cut (token : List Char) (count : Nat) : List Char := token.take (token.length - count)

/-- The singular of a word. -/
def singular (token : List Char) : List Char :=
  if 7 ≤ token.length ∧ endswith token "iones" then cut token 5 ++ "ión".toList
  else if 5 ≤ token.length ∧ endswith token "ces" then cut token 3 ++ ['z']
  else if 5 ≤ token.length ∧ endswith token "ies" then cut token 3 ++ ['y']
  else if 6 ≤ token.length ∧ endswith token "es" ∧
      ["l", "r", "n", "d", "x", "z", "ch", "sh", "ss"].any (endswith (cut token 2)) then
    cut token 2
  else if 5 ≤ token.length ∧ endswith token "s" ∧
      ¬ ["us", "is", "ss"].any (endswith token) then
    cut token 1
  else token

/-- The base of a verb form; a doubled final consonant collapses. -/
def collapse (base : List Char) : List Char :=
  match base.reverse with
  | last :: before :: _ =>
      if 4 ≤ base.length ∧ last = before ∧ last ∉ VOWELS ++ ['l', 's', 'z'] then cut base 1
      else base
  | _ => base

/-- Verb suffixes, one after the other. -/
def verb (token : List Char) : List String → List Char
  | [] => token
  | suffix :: suffixes =>
      let base := cut token suffix.length
      if endswith token suffix ∧ 3 ≤ base.length ∧ base.any (· ∈ VOWELS) then collapse base
      else verb token suffixes

/-- Adverb and noun suffixes, one after the other, and the verb suffixes after them. -/
def derived (token : List Char) : List (String × Nat) → List Char
  | [] => verb token ["ing", "ed"]
  | (suffix, minimum) :: suffixes =>
      if endswith token suffix ∧ minimum + suffix.length ≤ token.length then
        cut token suffix.length
      else derived token suffixes

end Stem

/-- What `unicodedata` and `re` do: the words of a text, the normal form of a stopword if it is
one word, and whether all characters of a word are letters. -/
structure Words where
  findall : String → List String
  normalize : String → Option String
  isalpha : String → Bool

/-- Words have characters, and a normal form is its own normal form. -/
structure Words.Lawful (words : Words) : Prop where
  nonempty : ∀ text, "" ∉ words.findall text
  stable : ∀ word form, words.normalize word = some form → words.normalize form = some form

/-- Reduce inflections of a word. -/
def stem (words : Words) (token : String) : String :=
  if token.length < 4 ∨ words.isalpha token = false ∨ token ∈ Stem.UNCHANGED then token
  else String.ofList (Stem.derived (Stem.singular token.toList) Stem.SUFFIXES)

/-- The configuration of a tokenizer: `sorted(stopwords)` and whether words are stemmed. -/
structure Tokenizer where
  stopwords : List String
  stemming : Bool
deriving DecidableEq

namespace Tokenizer

/-- `Tokenizer(frozenset(stopwords), stemming)`. -/
def init (words : Words) (stopwords : List String) (stemming : Bool) :
    Except PyError Tokenizer :=
  match stopwords.mapM words.normalize with
  | none => .error (.ValueError "each stopword must be a single non-empty word")
  | some forms => .ok ⟨forms.eraseDups.insertionSort (fun a b => a ≤ b), stemming⟩

def tokens (tokenizer : Tokenizer) (words : Words) (text : String) : List String :=
  ((words.findall text).filter (· ∉ tokenizer.stopwords)).map
    (fun word => if tokenizer.stemming then stem words word else word)

end Tokenizer

/-! ## No token is empty -/

namespace Stem

variable {token : List Char} {count : Nat}

@[simp] theorem length_cut : (cut token count).length = token.length - count := by
  rw [cut, length_take]
  omega

theorem singular_pos (h : 4 ≤ token.length) : 3 ≤ (singular token).length := by
  rw [singular]
  split_ifs with hiones hces hies hes hs
  · have hsuffix : "ión".toList.length = 3 := by decide
    rw [length_append, length_cut, hsuffix]
    omega
  · rw [length_append, length_cut, length_singleton]
    omega
  · rw [length_append, length_cut, length_singleton]
    omega
  · rw [length_cut]
    omega
  · rw [length_cut]
    omega
  · omega

theorem collapse_pos (h : 3 ≤ token.length) : 3 ≤ (collapse token).length := by
  rw [collapse]
  split
  · split_ifs with hdoubled
    · rw [length_cut]
      omega
    · exact h
  · exact h

theorem verb_pos (h : 3 ≤ token.length) (suffixes : List String) :
    3 ≤ (verb token suffixes).length := by
  induction suffixes with
  | nil => exact h
  | cons suffix suffixes ih =>
      rw [verb]
      split_ifs with hends
      · exact collapse_pos hends.2.1
      · exact ih

theorem derived_pos (h : 3 ≤ token.length) {suffixes : List (String × Nat)}
    (hminimum : ∀ s ∈ suffixes, 3 ≤ s.2) : 3 ≤ (derived token suffixes).length := by
  induction suffixes with
  | nil => exact verb_pos h _
  | cons s suffixes ih =>
      obtain ⟨suffix, minimum⟩ := s
      have hfirst : 3 ≤ minimum := hminimum (suffix, minimum) mem_cons_self
      rw [derived]
      split_ifs with hends
      · rw [length_cut]
        omega
      · exact ih (fun s hs => hminimum s (mem_cons_of_mem _ hs))

end Stem

theorem stem_ne_empty (words : Words) {token : String} (h : token ≠ "") :
    stem words token ≠ "" := by
  rw [stem]
  split_ifs with hkept
  · exact h
  · have hlong : 4 ≤ token.toList.length := by
      rw [String.length_toList]
      omega
    have hminimum : ∀ s ∈ Stem.SUFFIXES, 3 ≤ s.2 := by decide
    have hpos := Stem.derived_pos (Stem.singular_pos hlong) hminimum
    intro hempty
    have hlist := congrArg String.toList hempty
    rw [String.toList_ofList] at hlist
    rw [hlist] at hpos
    exact absurd hpos (by decide)

namespace Tokenizer

variable {words : Words}

theorem mapM_eq_some_self {normalize : String → Option String} :
    ∀ {forms : List String}, (∀ form ∈ forms, normalize form = some form) →
      forms.mapM normalize = some forms
  | [], _ => rfl
  | form :: forms, h => by
      rw [mapM_cons, h form mem_cons_self,
        mapM_eq_some_self (fun form hform => h form (mem_cons_of_mem _ hform))]
      rfl

theorem mem_of_mapM_eq_some {normalize : String → Option String} {form : String} :
    ∀ {stopwords forms : List String}, stopwords.mapM normalize = some forms → form ∈ forms →
      ∃ word, normalize word = some form
  | [], forms, h, hform => by
      cases h
      cases hform
  | word :: stopwords, forms, h, hform => by
      rw [mapM_cons, Option.bind_eq_bind, Option.bind_eq_some_iff] at h
      obtain ⟨first, hfirst, hrest⟩ := h
      rw [Option.bind_eq_bind, Option.bind_eq_some_iff] at hrest
      obtain ⟨rest, hmapM, hforms⟩ := hrest
      cases hforms
      rcases mem_cons.mp hform with rfl | hmem
      · exact ⟨word, hfirst⟩
      · exact mem_of_mapM_eq_some hmapM hmem

theorem eraseDups_of_nodup : ∀ {forms : List String}, forms.Nodup → forms.eraseDups = forms
  | [], _ => rfl
  | form :: forms, h => by
      obtain ⟨hnew, hrest⟩ := nodup_cons.mp h
      have hkept : forms.filter (fun b => !b == form) = forms := by
        refine filter_eq_self.mpr (fun b hb => ?_)
        have hne : b ≠ form := fun heq => hnew (heq ▸ hb)
        simpa using hne
      rw [eraseDups_cons, hkept, eraseDups_of_nodup hrest]

theorem not_mem_tokens (hwords : words.Lawful) (tokenizer : Tokenizer) (text : String) :
    "" ∉ tokenizer.tokens words text := by
  intro hmem
  obtain ⟨word, hword, hempty⟩ := mem_map.mp hmem
  have hne : word ≠ "" := by
    rintro rfl
    exact hwords.nonempty text (mem_filter.mp hword).1
  split_ifs at hempty with hstemming
  · exact stem_ne_empty words hne hempty
  · exact hne hempty

/-- The stopwords of a tokenizer are in normal form, ascend, and occur once. -/
theorem init_again (hwords : words.Lawful) {stopwords : List String} {stemming : Bool}
    {tokenizer : Tokenizer} (h : init words stopwords stemming = .ok tokenizer) :
    init words tokenizer.stopwords tokenizer.stemming = .ok tokenizer := by
  rw [init] at h
  split at h
  · cases h
  · next forms hforms =>
      cases h
      have hstable : ∀ form ∈ forms, words.normalize form = some form := by
        intro form hform
        obtain ⟨word, hword⟩ := mem_of_mapM_eq_some hforms hform
        exact hwords.stable word form hword
      have hsame : (forms.eraseDups.insertionSort (fun a b => a ≤ b)).mapM words.normalize =
          some (forms.eraseDups.insertionSort (fun a b => a ≤ b)) := by
        refine mapM_eq_some_self (fun form hform => hstable form ?_)
        rwa [mem_insertionSort, mem_eraseDups] at hform
      have hnodup : (forms.eraseDups.insertionSort (fun a b => a ≤ b)).Nodup :=
        (perm_insertionSort _ _).nodup_iff.mpr (nodup_eraseDups forms)
      have hsorted := pairwise_insertionSort (fun a b : String => a ≤ b) forms.eraseDups
      rw [init, hsame]
      dsimp only
      rw [eraseDups_of_nodup hnodup, List.Pairwise.insertionSort_eq hsorted]

end Tokenizer
end SoupDB
