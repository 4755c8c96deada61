import Mathlib
import XQuerySyntax.Grammar.MatchOption
import XQuerySyntax.Proofs.Lexing.Token
import XQuerySyntax.Proofs.RoundTrip.Reads

/-! Match options as they are written. What a text says is defined apart from the parser, option by option;
so is what a list of options amounts to: the last value of each group, all extensions, and an error for
every option whose group has occurred before. -/

namespace XQuerySyntax

variable {α : Type}

/-! ### What a text says -/

/-- A number of the text as a constant, where its token begins. -/
def Frame.constant (f : Frame) (value : Literal) (token : List Char) : LiteralNode :=
  ⟨value, f.size - byteLength token, f.module⟩

/-- What a name without a default namespace stands for. -/
def Frame.plainName (f : Frame) (name : LexicalName) : QName :=
  ⟨name.qualifier, name.localPart, name.qualifier.bind f.context.resolve?⟩

/-- Items with a separator between every two of them; behind the last there is none. -/
inductive Listed (separator : Rule) (Item : List Char → α → List Char → Prop) :
    List Char → List α → List Char → Prop where
  | last {text rest : List Char} {a : α} (ha : Item text a rest) (hlacks : Lacks separator rest) :
      Listed separator Item text [a] rest
  | cons {text behind token next rest : List Char} {a : α} {as : List α} (ha : Item text a behind)
      (hseparator : HasToken separator behind token [] next) (has : Listed separator Item next as rest) :
      Listed separator Item text (a :: as) rest

namespace FtMatchOption

/-- The options that are said with words alone. -/
def plain : List (Rule × FtMatchOption) :=
  [(Terminal.caseInsensitive, .letterCase .insensitive), (Terminal.caseSensitive, .letterCase .sensitive),
    (Terminal.lowercase, .letterCase .lowercase), (Terminal.uppercase, .letterCase .uppercase),
    (Terminal.diacriticsInsensitive, .diacritics .insensitive),
    (Terminal.diacriticsSensitive, .diacritics .sensitive), (Terminal.noStemming, .stemming false),
    (Terminal.stemmingOption, .stemming true), (Terminal.noWildcards, .wildcards false),
    (Terminal.wildcardsOption, .wildcards true)]

end FtMatchOption

/-- The levels of a thesaurus relationship, if they are said. -/
inductive SaysLevels (f : Frame) : List Char → Option (FtRange LiteralNode) → List Char → Prop where
  | exactly {text token behind word rest : List Char} {n : Literal}
      (h : HasToken Terminal.exactlyLevels text token [.number n] behind)
      (hword : HasToken Terminal.levelsWord behind word [] rest) :
      SaysLevels f text (some (.exactly (f.constant n token))) rest
  | atLeast {text token behind word rest : List Char} {n : Literal}
      (h : HasToken Terminal.atLeastLevels text token [.number n] behind)
      (hword : HasToken Terminal.levelsWord behind word [] rest) :
      SaysLevels f text (some (.atLeast (f.constant n token))) rest
  | atMost {text token behind word rest : List Char} {n : Literal}
      (h : HasToken Terminal.atMostLevels text token [.number n] behind)
      (hword : HasToken Terminal.levelsWord behind word [] rest) :
      SaysLevels f text (some (.atMost (f.constant n token))) rest
  | fromTo {text token behind word rest : List Char} {low high : Literal}
      (h : HasToken Terminal.fromToLevels text token [.number low, .number high] behind)
      (hword : HasToken Terminal.levelsWord behind word [] rest) :
      SaysLevels f text (some (.fromTo (f.constant low token) (f.constant high token))) rest
  | none {text : List Char}
      (h : ∀ r ∈ [Terminal.exactlyLevels, Terminal.atLeastLevels, Terminal.atMostLevels, Terminal.fromToLevels],
        Lacks r text) :
      SaysLevels f text none text

/-- The relationship of a thesaurus, if it is said. -/
inductive SaysRelationship : List Char → Option String → List Char → Prop where
  | some {text token rest : List Char} {name : String}
      (h : HasToken Terminal.relationship text token [.string name] rest) : SaysRelationship text (some name) rest
  | none {text : List Char} (h : Lacks Terminal.relationship text) : SaysRelationship text none text

/-- The default thesaurus, which is `none`, or one with its location. -/
inductive SaysThesaurus (f : Frame) : List Char → Option FtThesaurusId → List Char → Prop where
  | default {text token rest : List Char} (h : HasToken Terminal.thesaurusDefault text token [] rest) :
      SaysThesaurus f text none rest
  | stored {text token behind behind' rest : List Char} {t : FtThesaurusId}
      (hat : HasToken Terminal.thesaurusAt text token [.string t.location] behind)
      (hrelationship : SaysRelationship behind t.relationship behind')
      (hlevels : SaysLevels f behind' t.levels rest) : SaysThesaurus f text (some t) rest

/-- The use of these thesauri, the default one among them if it is named. -/
def FtThesaurusOption.use (thesauri : List (Option FtThesaurusId)) : FtThesaurusOption :=
  ⟨true, thesauri.any Option.isNone, thesauri.filterMap id⟩

/-- One thesaurus, or a list of them in parentheses. -/
inductive SaysThesauri (f : Frame) : List Char → FtThesaurusOption → List Char → Prop where
  | one {text rest : List Char} {thesaurus : Option FtThesaurusId} (h : SaysThesaurus f text thesaurus rest) :
      SaysThesauri f text (.use [thesaurus]) rest
  | list {text token inner behind token' rest : List Char} {thesauri : List (Option FtThesaurusId)}
      (hopen : HasToken Terminal.thesaurusOpen text token [] inner)
      (hlist : Listed Terminal.thesaurusComma (SaysThesaurus f) inner thesauri behind)
      (hclose : HasToken Terminal.thesaurusClose behind token' [] rest) : SaysThesauri f text (.use thesauri) rest

/-- A string literal of a list. -/
def SaysWord (text : List Char) (word : String) (rest : List Char) : Prop :=
  ∃ token, HasToken Terminal.ftListString text token [.string word] rest

/-- Words in parentheses, behind the opening one. -/
inductive SaysWords : List Char → List String → List Char → Prop where
  | list {text behind token rest : List Char} {words : List String}
      (hlist : Listed Terminal.ftListComma SaysWord text words behind)
      (hclose : HasToken Terminal.ftListClose behind token [] rest) : SaysWords text words rest

/-- The first source of stop words. -/
inductive SaysSource : List Char → FtStopWords → List Char → Prop where
  | default {text token rest : List Char} (h : HasToken Terminal.stopWordsDefault text token [] rest) :
      SaysSource text .default rest
  | stored {text token rest : List Char} {location : String}
      (h : HasToken Terminal.stopWordsAt text token [.string location] rest) :
      SaysSource text (.stored location) rest
  | list {text token inner rest : List Char} {words : List String}
      (hopen : HasToken Terminal.stopWordsList text token [] inner) (hwords : SaysWords inner words rest) :
      SaysSource text (.list words) rest

/-- The words that join sources of stop words. -/
def FtStopWordCombine.rules : List (Rule × FtStopWordCombine) :=
  [(Terminal.stopWordsUnion, .union), (Terminal.stopWordsExcept, .except)]

/-- A further source of stop words with the word that joins it. -/
inductive SaysFurther : List Char → FtStopWordSource → List Char → Prop where
  | stored {r : Rule} {combine : FtStopWordCombine} {text token behind token' rest : List Char} {location : String}
      (hr : (r, combine) ∈ FtStopWordCombine.rules) (hjoin : HasToken r text token [] behind)
      (hat : HasToken Terminal.ftListAt behind token' [.string location] rest) :
      SaysFurther text ⟨some combine, .stored location⟩ rest
  | list {r : Rule} {combine : FtStopWordCombine} {text token behind token' inner rest : List Char}
      {words : List String} (hr : (r, combine) ∈ FtStopWordCombine.rules) (hjoin : HasToken r text token [] behind)
      (hopen : HasToken Terminal.ftListOpen behind token' [] inner) (hwords : SaysWords inner words rest) :
      SaysFurther text ⟨some combine, .list words⟩ rest

/-- The further sources of stop words, as many as there are. -/
inductive SaysSources : List Char → List FtStopWordSource → List Char → Prop where
  | nil {text : List Char} (h : ∀ source rest, ¬SaysFurther text source rest) : SaysSources text [] text
  | cons {text behind rest : List Char} {source : FtStopWordSource} {sources : List FtStopWordSource}
      (h : SaysFurther text source behind) (hs : SaysSources behind sources rest) :
      SaysSources text (source :: sources) rest

/-- One match option, behind the word that announces it. -/
inductive SaysOption (f : Frame) : List Char → FtMatchOption → List Char → Prop where
  | plain {r : Rule} {option : FtMatchOption} {text token rest : List Char} (hr : (r, option) ∈ FtMatchOption.plain)
      (h : HasToken r text token [] rest) : SaysOption f text option rest
  | language {text token rest : List Char} {name : String}
      (h : HasToken Terminal.languageOption text token [.string name] rest) :
      SaysOption f text (.language name) rest
  | extension {text token rest : List Char} {name : LexicalName} {value : String}
      (h : HasToken Terminal.ftExtensionOption text token [.qualifiedName name, .string value] rest) :
      SaysOption f text (.extension (f.plainName name) value) rest
  | noThesaurus {text token rest : List Char} (h : HasToken Terminal.noThesaurus text token [] rest) :
      SaysOption f text (.thesaurus ⟨false, false, []⟩) rest
  | thesaurus {text token behind rest : List Char} {value : FtThesaurusOption}
      (h : HasToken Terminal.thesaurusOption text token [] behind) (hvalue : SaysThesauri f behind value rest) :
      SaysOption f text (.thesaurus value) rest
  | noStopWords {text token rest : List Char} (h : HasToken Terminal.noStopWords text token [] rest) :
      SaysOption f text (.stopWords ⟨false, []⟩) rest
  | stopWords {text behind rest : List Char} {words : FtStopWords} {sources : List FtStopWordSource}
      (h : SaysSource text words behind) (hs : SaysSources behind sources rest) :
      SaysOption f text (.stopWords ⟨true, ⟨none, words⟩ :: sources⟩) rest

/-- A match option and the offset behind the word that announces it. -/
structure WrittenOption where
  offset : Nat
  option : FtMatchOption

/-- Match options one behind the other, each announced by its word. -/
inductive SaysOptions (f : Frame) : List Char → List WrittenOption → List Char → Prop where
  | nil (text : List Char) : SaysOptions f text [] text
  | cons {text token behind next rest : List Char} {option : FtMatchOption} {written : List WrittenOption}
      (husing : HasToken Terminal.usingOption text token [] behind) (hoption : SaysOption f behind option next)
      (hwritten : SaysOptions f next written rest) :
      SaysOptions f text (⟨f.size - byteLength (behind.dropWhile Text.isSpace), option⟩ :: written) rest

/-! ### What options amount to -/

/-- The groups of options of which one may be given. -/
inductive FtOptionGroup where
  | letterCase
  | diacritics
  | stemming
  | wildcards
  | language
  | thesaurus
  | stopWords
  deriving DecidableEq, Repr

/-- Every group. -/
def FtOptionGroup.all : List FtOptionGroup :=
  [letterCase, diacritics, stemming, wildcards, language, thesaurus, stopWords]

namespace FtMatchOption

/-- The group of an option; extensions have none. -/
def group? : FtMatchOption → Option FtOptionGroup
  | letterCase _ => some .letterCase
  | diacritics _ => some .diacritics
  | stemming _ => some .stemming
  | wildcards _ => some .wildcards
  | language _ => some .language
  | extension .. => none
  | thesaurus _ => some .thesaurus
  | stopWords _ => some .stopWords

/-- Name and value of an extension. -/
def extension? : FtMatchOption → Option (QName × String)
  | extension name value => some (name, value)
  | _ => none

end FtMatchOption

/-- The option of a group that a set of options holds. -/
def FtMatchOptions.held? (o : FtMatchOptions) : FtOptionGroup → Option FtMatchOption
  | .letterCase => o.letterCase.map .letterCase
  | .diacritics => o.diacritics.map .diacritics
  | .stemming => o.stemming.map .stemming
  | .wildcards => o.wildcards.map .wildcards
  | .language => o.language.map .language
  | .thesaurus => o.thesaurus.map .thesaurus
  | .stopWords => o.stopWords.map .stopWords

/-- The options of a group, in order. -/
def ofGroup (g : FtOptionGroup) (options : List FtMatchOption) : List FtMatchOption :=
  options.filter fun option => option.group? = some g

/-- Options added one after the other. -/
def FtMatchOptions.addAll (o : FtMatchOptions) (options : List FtMatchOption) : FtMatchOptions :=
  options.foldl FtMatchOption.addTo o

namespace WrittenOption

/-- The error for an extension whose qualifier is not bound. -/
def unknownPrefix (w : WrittenOption) : List Diagnostic :=
  match w.option with
  | .extension ⟨some q, _, none⟩ _ =>
    [.error .unknownPrefix w.offset ("namespace prefix '" ++ q ++ "' is not declared")]
  | _ => []

/-- The error for an option of which one is given already. -/
def duplicate (o : FtMatchOptions) (w : WrittenOption) : List Diagnostic :=
  if w.option.isGiven o then
    [.error .duplicateMatchOption w.offset
      ("the " ++ w.option.label ++ " match option is given more than once")]
  else []

/-- The errors of options that are added one after the other. -/
def reports : FtMatchOptions → List WrittenOption → List Diagnostic
  | _, [] => []
  | o, w :: written => w.unknownPrefix ++ w.duplicate o ++ reports (w.option.addTo o) written

end WrittenOption

/-- How many options of the group are there already when they come: all but the first, if none is held. -/
def timesRepeated (g : FtOptionGroup) (o : FtMatchOptions) (options : List FtMatchOption) : Nat :=
  (ofGroup g options).length - if (o.held? g).isSome then 0 else 1

variable {o : FtMatchOptions} {option : FtMatchOption} {g : FtOptionGroup} {options : List FtMatchOption}

/-! #### One option -/

/-- An option replaces the one of its group and leaves all others. -/
theorem FtMatchOptions.held?_addTo (o : FtMatchOptions) (option : FtMatchOption) (g : FtOptionGroup) :
    (option.addTo o).held? g = if option.group? = some g then some option else o.held? g := by
  cases option <;> cases g <;> rfl

theorem FtMatchOptions.extensions_addTo (o : FtMatchOptions) (option : FtMatchOption) :
    (option.addTo o).extensions = o.extensions ++ option.extension?.toList := by
  cases option <;> first | exact (List.append_nil _).symm | rfl

/-- An option is given already if its group is held. -/
theorem FtMatchOption.isGiven_eq (o : FtMatchOptions) (option : FtMatchOption) :
    option.isGiven o = option.group?.any fun g => (o.held? g).isSome := by
  cases option <;> first | exact Option.isSome_map.symm | rfl

theorem ofGroup_cons (g : FtOptionGroup) (option : FtMatchOption) (options : List FtMatchOption) :
    ofGroup g (option :: options) =
      if option.group? = some g then option :: ofGroup g options else ofGroup g options := by
  rw [ofGroup, List.filter_cons]
  simp only [decide_eq_true_eq, ofGroup]

/-! #### All options -/

/-- Of each group the last option is held, or the one from before if there is none. -/
theorem FtMatchOptions.held?_addAll (o : FtMatchOptions) (options : List FtMatchOption) (g : FtOptionGroup) :
    (o.addAll options).held? g = (ofGroup g options).getLast?.or (o.held? g) := by
  induction options generalizing o with
  | nil => rfl
  | cons option options ih =>
    have hrest : (o.addAll (option :: options)).held? g =
        (ofGroup g options).getLast?.or ((option.addTo o).held? g) := ih _
    rw [hrest, held?_addTo, ofGroup_cons]
    split
    · rw [List.getLast?_cons]
      cases (ofGroup g options).getLast? <;> rfl
    · rfl

theorem FtMatchOptions.extensions_addAll (o : FtMatchOptions) (options : List FtMatchOption) :
    (o.addAll options).extensions = o.extensions ++ options.filterMap FtMatchOption.extension? := by
  induction options generalizing o with
  | nil => exact (List.append_nil _).symm
  | cons option options ih =>
    have hrest : (o.addAll (option :: options)).extensions =
        (option.addTo o).extensions ++ options.filterMap FtMatchOption.extension? := ih _
    rw [hrest, extensions_addTo, List.append_assoc, List.filterMap_cons]
    cases option.extension? <;> rfl

/-- Options that are added leave a set that is not empty. -/
theorem FtMatchOptions.isEmpty_addAll (options : List FtMatchOption) :
    (empty.addAll options).isEmpty = options.isEmpty := by
  cases options with
  | nil => rfl
  | cons option options =>
    rw [List.isEmpty_cons, isEmpty, beq_eq_false_iff_ne]
    intro hempty
    cases hg : option.group? with
    | some g =>
      have hheld := held?_addAll empty (option :: options) g
      rw [hempty, ofGroup_cons, if_pos hg, List.getLast?_cons] at hheld
      cases g <;> cases hheld
    | none =>
      obtain ⟨name, value, rfl⟩ : ∃ name value, option = .extension name value := by
        cases option <;> first | exact ⟨_, _, rfl⟩ | cases hg
      have hextensions := extensions_addAll empty (.extension name value :: options)
      rw [hempty] at hextensions
      cases hextensions

/-! #### Repetitions -/

/-- An option is one more repetition in its group if the group is held, and none in any other. -/
theorem timesRepeated_cons (g : FtOptionGroup) (o : FtMatchOptions) (option : FtMatchOption)
    (options : List FtMatchOption) :
    timesRepeated g o (option :: options) =
      (if option.group? = some g ∧ (o.held? g).isSome then 1 else 0) + timesRepeated g (option.addTo o) options := by
  unfold timesRepeated
  rw [FtMatchOptions.held?_addTo, ofGroup_cons]
  by_cases hg : option.group? = some g
  · rw [if_pos hg, if_pos hg, List.length_cons]
    cases (o.held? g).isSome <;> simp [hg]; omega
  · simp [hg]

theorem sum_timesRepeated_cons (o : FtMatchOptions) (option : FtMatchOption) (options : List FtMatchOption) :
    (FtOptionGroup.all.map fun g => timesRepeated g o (option :: options)).sum =
      (if option.isGiven o then 1 else 0) +
        (FtOptionGroup.all.map fun g => timesRepeated g (option.addTo o) options).sum := by
  have hone : (FtOptionGroup.all.map fun g => if option.group? = some g ∧ (o.held? g).isSome then 1 else 0).sum =
      if option.isGiven o then 1 else 0 := by
    rw [FtMatchOption.isGiven_eq]
    cases option.group? with
    | none => rfl
    | some g => cases g <;> simp [FtOptionGroup.all]
  simp only [timesRepeated_cons]
  rw [← hone, List.sum_map_add]

/-- The errors about repeated options are as many as there are repetitions in all groups. -/
theorem count_reports (o : FtMatchOptions) (written : List WrittenOption) :
    (WrittenOption.reports o written).countP (·.code = .duplicateMatchOption) =
      (FtOptionGroup.all.map fun g => timesRepeated g o (written.map WrittenOption.option)).sum := by
  induction written generalizing o with
  | nil => simp [WrittenOption.reports, timesRepeated, ofGroup]
  | cons w written ih =>
    have hunknown : w.unknownPrefix.countP (·.code = .duplicateMatchOption) = 0 := by
      unfold WrittenOption.unknownPrefix
      split <;> rfl
    have hduplicate : (w.duplicate o).countP (·.code = .duplicateMatchOption) =
        if w.option.isGiven o then 1 else 0 := by
      unfold WrittenOption.duplicate
      split <;> rfl
    rw [WrittenOption.reports, List.countP_append, List.countP_append, hunknown, hduplicate, ih, List.map_cons,
      sum_timesRepeated_cons, Nat.zero_add]

end XQuerySyntax
