import Mathlib.Data.List.Forall2
import TreeRewrite.Failure
import TreeRewrite.Proofs.Results

/-!
# Which value a setting has

The layers of the environment and of the flags are put on top of the defaults.  What a setting has
in the end is the topmost value that is given for it; but every value that is given is checked on
the way, those of the lower layer first, and the first that is wrong ends it all.

## What is here

* `Feed.Named` — the texts that name a feed, and `Feed.ofName_eq_ok_iff`, that these are understood.
* `Setting.LastOfHighest` — the value that outranks all others, and `Setting.foldl_merge`, that it
  is left when values are merged one after the other.
* `Setting.Chosen`, `Settings.Chosen` — the values that the environment and the flags call for.
* `Given` — a value that is given and checked; `Layer.given` are those of a layer in the order in
  which they are checked, and `Settings.apply_eq_error_iff` says that the first wrong one is
  reported.
* `Settings.given` — all values that are checked, by the variables of the environment.
* `Settings.resolve_by_precedence` — **settings are resolved by precedence, unless a value that is
  given is wrong**.
-/

set_option autoImplicit false

namespace TreeRewrite

/-! ## The names of feeds -/

namespace Feed

/-- `SameLetter c small` says that a character is another one, or the capital of this if this is a
small letter of ASCII. -/
inductive SameLetter : Char → Char → Prop
  | same (c : Char) : SameLetter c c
  | capital {c small : Char} (upper : c.isUpper = true) (apart : small.toNat = c.toNat + 32) :
    SameLetter c small

/-- Is the text the name of the feed, in letters of either case? -/
def Named (feed : Feed) (text : String) : Prop :=
  List.Forall₂ SameLetter text.toList feed.name.toList

/-- Capitals are 32 code points away from their small letters. -/
theorem toNat_toLower {c : Char} (upper : c.isUpper = true) : c.toLower.toNat = c.toNat + 32 := by
  have range : 'A'.val ≤ c.val ∧ c.val ≤ 'Z'.val := of_decide_eq_true upper
  have lowered : c.toLower.val = c.val + ('a'.val - 'A'.val) := congrArg Char.val (dif_pos range)
  have below := UInt32.le_iff_toNat_le.mp range.2
  show c.toLower.val.toNat = c.val.toNat + 32
  rw [lowered, UInt32.toNat_add]
  have : ('Z'.val).toNat = 90 := rfl
  have : ('a'.val - 'A'.val).toNat = 32 := rfl
  omega

theorem toLower_of_not_isUpper {c : Char} (h : c.isUpper = false) : c.toLower = c :=
  dif_neg (of_decide_eq_false h)

/-- A character is put in lower case as the small letter that it is the same as. -/
theorem toLower_eq_iff {c small : Char} (h : small.isUpper = false) :
    c.toLower = small ↔ SameLetter c small := by
  constructor
  · rintro rfl
    cases upper : c.isUpper with
    | false => rw [toLower_of_not_isUpper upper]; exact .same c
    | true => exact .capital upper (toNat_toLower upper)
  · rintro (_ | ⟨upper, apart⟩)
    · exact toLower_of_not_isUpper h
    · exact Char.toNat_inj.mp ((toNat_toLower upper).trans apart.symm)

theorem map_toLower_eq_iff {cs smalls : List Char} (h : ∀ c ∈ smalls, c.isUpper = false) :
    cs.map Char.toLower = smalls ↔ List.Forall₂ SameLetter cs smalls := by
  induction smalls generalizing cs with
  | nil => simp
  | cons small rest ih =>
    obtain ⟨here, later⟩ := List.forall_mem_cons.mp h
    simp only [List.map_eq_cons_iff, toLower_eq_iff here, ih later, List.forall₂_cons_right_iff]
    tauto

theorem named_iff {feed : Feed} {text : String} :
    feed.Named text ↔ text.map Char.toLower = feed.name := by
  have smalls : ∀ c ∈ feed.name.toList, c.isUpper = false := by
    have all : feed.name.toList.all (!·.isUpper) = true := by cases feed <;> decide
    simpa using all
  rw [Named, ← map_toLower_eq_iff smalls, ← String.toList_map, String.toList_inj]

/-- **A text is understood as the feed that it names.** -/
theorem ofName_eq_ok_iff {feed : Feed} {text : String} :
    ofName text = .ok feed ↔ feed.Named text := by
  rw [named_iff, ofName]
  split <;> cases feed <;> simp_all [name]

/-- A text that names no feed is quoted in lower case. -/
theorem ofName_eq_error {text : String} (h : ∀ feed : Feed, ¬feed.Named text) :
    ofName text = .error ⟨text.map Char.toLower⟩ := by
  cases named : ofName text with
  | ok feed => exact absurd (ofName_eq_ok_iff.mp named) (h feed)
  | error e =>
    rw [ofName] at named
    split at named <;> simp_all

end Feed

/-! ## Values of several sources -/

namespace Setting

variable {α : Type}

/-- Is the setting the last of those with the highest source? -/
def LastOfHighest (settings : List (Setting α)) (s : Setting α) : Prop :=
  ∃ before after, settings = before ++ s :: after ∧
    (∀ earlier ∈ before, earlier.source.rank ≤ s.source.rank) ∧
    ∀ later ∈ after, later.source.rank < s.source.rank

theorem merge_of_le {s other : Setting α} (h : s.source.rank ≤ other.source.rank) :
    s.merge other = other := if_pos h

theorem merge_of_lt {s other : Setting α} (h : other.source.rank < s.source.rank) :
    s.merge other = s := if_neg (Nat.not_le.mpr h)

/-- The last of the highest source, with another setting behind. -/
theorem LastOfHighest.merge {settings : List (Setting α)} {s : Setting α}
    (h : LastOfHighest settings s) (next : Setting α) :
    LastOfHighest (settings ++ [next]) (s.merge next) := by
  obtain ⟨before, after, rfl, earlier, later⟩ := h
  by_cases outranked : s.source.rank ≤ next.source.rank
  · -- Nothing that was there has a higher source than `s`, so nothing has one than `next`.
    rw [merge_of_le outranked]
    refine ⟨before ++ s :: after, [], rfl, fun other mem => ?_, by simp⟩
    rcases List.mem_append.mp mem with mem | mem
    · exact Nat.le_trans (earlier other mem) outranked
    · rcases List.mem_cons.mp mem with rfl | mem
      · exact outranked
      · exact Nat.le_trans (Nat.le_of_lt (later other mem)) outranked
  · rw [merge_of_lt (Nat.not_le.mp outranked)]
    refine ⟨before, after ++ [next], by simp, earlier, ?_⟩
    exact List.forall_mem_append.mpr ⟨later, by simpa using outranked⟩

theorem LastOfHighest.foldl {settings : List (Setting α)} {s : Setting α}
    (h : LastOfHighest settings s) (rest : List (Setting α)) :
    LastOfHighest (settings ++ rest) (rest.foldl Setting.merge s) := by
  induction rest generalizing settings s with
  | nil => simpa using h
  | cons next rest ih => simpa using ih (h.merge next)

/-- **What is left of settings that are merged one after the other** is the last one of the highest
source. -/
theorem foldl_merge (first : Setting α) (rest : List (Setting α)) :
    LastOfHighest (first :: rest) (rest.foldl merge first) :=
  LastOfHighest.foldl ⟨[], [], rfl, by simp, by simp⟩ rest

/-- `Chosen Means default environment? flag? s` says that a setting has the value of the flag if one
is given, else that of the environment if one is given, else the default, and the source that its
value comes from.  `Means` says which value a text stands for. -/
inductive Chosen (Means : String → α → Prop) (default : α) :
    Option String → Option String → Setting α → Prop
  | flag (environment? : Option String) {text : String} {value : α} (means : Means text value) :
    Chosen Means default environment? (some text) ⟨value, .flag⟩
  | environment {text : String} {value : α} (means : Means text value) :
    Chosen Means default (some text) none ⟨value, .environment⟩
  | default : Chosen Means default none none ⟨default, .default⟩

end Setting

/-! ## Values that are given and checked -/

/-- A value that is given for a setting which does not admit every text. -/
inductive Given where
  | scopeParam (text : String)
  | renamedParam (text : String)
  | bundleFeed (text : String)

namespace Given

/-- Is the value one that the setting admits?  Names of parameters have characters and no blanks
among them, and a feed has to be named. -/
def Admitted : Given → Prop
  | scopeParam text | renamedParam text => text ≠ "" ∧ ∀ c ∈ text.toList, Text.isBlank c = false
  | bundleFeed text => ∃ feed : Feed, feed.Named text

/-- What is said of a value that is not admitted. -/
def complaint : Given → String
  | scopeParam text => "invalid scope parameter '" ++ text ++ "': expected an identifier"
  | renamedParam text => "invalid renamed parameter '" ++ text ++ "': expected an identifier"
  | bundleFeed text => "invalid bundle feed '" ++ text.map Char.toLower ++
      "', expected one of: whole, primary, halt"

/-- The error for a value that is not admitted. -/
def error : Given → SettingError
  | scopeParam text => .notIdentifier "scope parameter" text
  | renamedParam text => .notIdentifier "renamed parameter" text
  | bundleFeed text => .unknownFeed ⟨text.map Char.toLower⟩

theorem ofSetting_error (given : Given) :
    Failure.ofSetting given.error = .invalidArguments given.complaint := by
  cases given <;> rfl

theorem isIdentifier_iff {text : String} : isIdentifier text = true ↔
    text ≠ "" ∧ ∀ c ∈ text.toList, Text.isBlank c = false := by
  simp [isIdentifier]

instance (given : Given) : Decidable given.Admitted :=
  match given with
  | scopeParam text | renamedParam text =>
    decidable_of_iff (isIdentifier text = true) isIdentifier_iff
  | bundleFeed text => decidable_of_iff ((Feed.ofName text).isOk = true) (by
      rw [Admitted]
      simp only [← Feed.ofName_eq_ok_iff]
      cases Feed.ofName text <;> simp [Except.isOk, Except.toBool])

/-- The error for a value, if it is not admitted. -/
def fault? : Given → Option SettingError := faultOf (decide ·.Admitted) error

end Given

/-- The values of a layer that are checked, in the order in which they are. -/
def Layer.given (layer : Layer) : List Given :=
  layer.scopeParam?.toList.map .scopeParam ++ layer.renamedParam?.toList.map .renamedParam ++
    layer.bundleFeed?.toList.map .bundleFeed

/-! ## Layers -/

namespace Settings

section Put

variable {α : Type} {s : Setting α} {source : Source} {check : String → Except SettingError α}

/-- A value that is put into a setting is merged with the one before. -/
theorem put_some_eq_ok {text : String} {s' : Setting α} :
    put s source check (some text) = .ok s' ↔
      ∃ value, check text = .ok value ∧ s' = s.merge ⟨value, source⟩ := by
  rw [put, bind_eq_ok]
  simp [pure, Except.pure, eq_comm]

/-- Nothing is wrong with a value that is not given, and with one that is, what its check finds. -/
theorem put_eq_error_iff {given : String → Given}
    (h : ∀ text e, check text = .error e ↔ (given text).fault? = some e) (text? : Option String)
    (e : SettingError) : put s source check text? = .error e ↔
      (text?.toList.map given).findSome? Given.fault? = some e := by
  cases text? with
  | none => simp [put]
  | some text =>
    rw [put, bind_eq_error]
    simp [pure, Except.pure, h]

/-- **What is put into a setting by two layers** is the value that they call for. -/
theorem chosen_of_put {Means : String → α → Prop} {default : α} {s' : Setting α}
    {environment? flag? : Option String}
    (means : ∀ text value, check text = .ok value → Means text value)
    (lower : put ⟨default, .default⟩ .environment check environment? = .ok s)
    (upper : put s .flag check flag? = .ok s') : s'.Chosen Means default environment? flag? := by
  cases flag? with
  | some text =>
    have highest : s.source.rank ≤ Source.flag.rank := by cases s.source <;> decide
    obtain ⟨value, checked, rfl⟩ := put_some_eq_ok.mp upper
    rw [Setting.merge_of_le highest]
    exact .flag environment? (means text value checked)
  | none =>
    obtain rfl := Except.ok.inj upper
    cases environment? with
    | some text =>
      obtain ⟨value, checked, rfl⟩ := put_some_eq_ok.mp lower
      rw [Setting.merge_of_le (Nat.zero_le _)]
      exact .environment (means text value checked)
    | none =>
      obtain rfl := Except.ok.inj lower
      exact .default

end Put

/-! ## What is checked -/

theorem identifier_eq_ok {what text value : String} (h : identifier what text = .ok value) :
    text = value := by
  rw [identifier] at h
  split at h <;> cases h
  rfl

/-- The check of a name finds what is wrong with it as a given value. -/
theorem identifier_eq_error_iff {what text : String} {given : Given} {e : SettingError}
    (admitted : given.Admitted ↔ isIdentifier text = true)
    (error : given.error = .notIdentifier what text) :
    identifier what text = .error e ↔ given.fault? = some e := by
  simp only [identifier, Given.fault?, faultOf, decide_eq_true_eq, admitted, error]
  split <;> simp

theorem feed_eq_error_iff {text : String} {e : SettingError} :
    (Feed.ofName text).mapError .unknownFeed = .error e ↔
      (Given.bundleFeed text).fault? = some e := by
  rw [Given.fault?, faultOf]
  by_cases named : (Given.bundleFeed text).Admitted
  · obtain ⟨feed, h⟩ := id named
    simp [named, Feed.ofName_eq_ok_iff.mpr h, Except.mapError]
  · simp [named, Feed.ofName_eq_error (not_exists.mp named), Except.mapError, Given.error]

/-- **A layer is refused for the first of its values that is wrong.** -/
theorem apply_eq_error_iff (s : Settings) (source : Source) (layer : Layer) (e : SettingError) :
    s.apply source layer = .error e ↔ layer.given.findSome? Given.fault? = some e := by
  have scope (text : String) (e : SettingError) : identifier "scope parameter" text = .error e ↔
      (Given.scopeParam text).fault? = some e :=
    identifier_eq_error_iff Given.isIdentifier_iff.symm rfl
  have renamed (text : String) (e : SettingError) :
      identifier "renamed parameter" text = .error e ↔ (Given.renamedParam text).fault? = some e :=
    identifier_eq_error_iff Given.isIdentifier_iff.symm rfl
  have token (s : Setting String) (e : SettingError) :
      put s source .ok layer.injectToken? = .error e ↔ none = some e := by
    cases layer.injectToken? <;> simp [put, bind, Except.bind, pure, Except.pure]
  have feed (s : Setting Feed) (e : SettingError) :
      put s source (fun text => (Feed.ofName text).mapError .unknownFeed) layer.bundleFeed?
        = .error e ↔ (layer.bundleFeed?.toList.map .bundleFeed).findSome? Given.fault? = some e :=
    put_eq_error_iff (fun _ _ => feed_eq_error_iff) layer.bundleFeed? e
  -- a fault in one setting wins over those in the settings put behind it; the token has none
  rw [apply, Layer.given, List.findSome?_append, List.findSome?_append, Option.or_assoc]
  refine bind_eq_error_iff (put_eq_error_iff scope _) (fun _ _ => ?_) e
  refine bind_eq_error_iff (put_eq_error_iff renamed _) fun _ _ => ?_
  refine bind_eq_error_iff (token _) fun _ _ e => ?_
  rw [bind_eq_error, feed]
  simp [pure, Except.pure]

theorem of_apply_eq_ok {s s' : Settings} {source : Source} {layer : Layer}
    (h : s.apply source layer = .ok s') :
    put s.scopeParam source (identifier "scope parameter") layer.scopeParam? = .ok s'.scopeParam ∧
    put s.renamedParam source (identifier "renamed parameter") layer.renamedParam?
      = .ok s'.renamedParam ∧
    put s.injectToken source .ok layer.injectToken? = .ok s'.injectToken ∧
    put s.bundleFeed source (fun text => (Feed.ofName text).mapError .unknownFeed)
      layer.bundleFeed? = .ok s'.bundleFeed := by
  obtain ⟨scopeParam, scope, h⟩ := bind_eq_ok.mp h
  obtain ⟨renamedParam, renamed, h⟩ := bind_eq_ok.mp h
  obtain ⟨injectToken, token, h⟩ := bind_eq_ok.mp h
  obtain ⟨bundleFeed, feed, ⟨⟩⟩ := bind_eq_ok.mp h
  exact ⟨scope, renamed, token, feed⟩

/-- The values that are checked, in the order in which they are: those that stand in the variables
of the environment, then those of the flags. -/
def given (env : String → Option String) (flags : Layer) : List Given :=
  (env "TUGPATTERN_SCOPE_PARAM").toList.map .scopeParam ++
    (env "TUGPATTERN_RENAMED_PARAM").toList.map .renamedParam ++
    (env "TUGPATTERN_BUNDLE_FEED").toList.map .bundleFeed ++ flags.given

/-- Each setting has the value that the variables of the environment and the flags call for. -/
structure Chosen (env : String → Option String) (flags : Layer) (s : Settings) : Prop where
  scopeParam : s.scopeParam.Chosen Eq ({} : RecipeOptions).scopeParam
    (env "TUGPATTERN_SCOPE_PARAM") flags.scopeParam?
  renamedParam : s.renamedParam.Chosen Eq ({} : RecipeOptions).renamedParam
    (env "TUGPATTERN_RENAMED_PARAM") flags.renamedParam?
  injectToken : s.injectToken.Chosen Eq ({} : RecipeOptions).injectToken
    (env "TUGPATTERN_INJECT_TOKEN") flags.injectToken?
  bundleFeed : s.bundleFeed.Chosen (fun text feed => feed.Named text) .whole
    (env "TUGPATTERN_BUNDLE_FEED") flags.bundleFeed?

/-- The first wrong value of the environment is reported, and if there is none, that of the
flags. -/
theorem resolve_reportsFirst (env : String → Option String) (flags : Layer) :
    ReportsFirst (given env flags) (decide ·.Admitted) Given.error (resolve env flags) := by
  have layers : given env flags = (Layer.ofEnvironment env).given ++ flags.given := rfl
  refine reportsFirst_iff.2 fun e => ?_
  rw [layers, List.findSome?_append]
  exact bind_eq_error_iff (apply_eq_error_iff defaults .environment _)
    (fun s _ => apply_eq_error_iff s .flag flags) e

theorem chosen_of_resolve {env : String → Option String} {flags : Layer} {s : Settings}
    (h : resolve env flags = .ok s) : s.Chosen env flags := by
  obtain ⟨between, lower, upper⟩ := bind_eq_ok.mp h
  obtain ⟨scope, renamed, token, feed⟩ := of_apply_eq_ok lower
  obtain ⟨scope', renamed', token', feed'⟩ := of_apply_eq_ok upper
  exact {
    scopeParam := chosen_of_put (fun _ _ => identifier_eq_ok) scope scope'
    renamedParam := chosen_of_put (fun _ _ => identifier_eq_ok) renamed renamed'
    injectToken := chosen_of_put (fun _ _ => Except.ok.inj) token token'
    bundleFeed := chosen_of_put
      (fun _ _ named => Feed.ofName_eq_ok_iff.mp (mapError_eq_ok.mp named)) feed feed' }

/-- **Settings are resolved by precedence.**  This succeeds just if all values that are given are
admitted, those of the environment as well as those of the flags, also the ones that others outrank;
the first that is not is reported, and those of the environment come first.  If it succeeds, each
setting has the value of the flag if one is given, else that of the environment, else the default.
And of any settings that are merged one after the other, the last of the highest source is left. -/
theorem resolve_by_precedence (env : String → Option String) (flags : Layer) :
    ReportsFirst (given env flags) (decide ·.Admitted)
      (fun given => Failure.invalidArguments given.complaint)
      ((resolve env flags).mapError Failure.ofSetting) ∧
    (∀ s, resolve env flags = .ok s → s.Chosen env flags) ∧
    ∀ {α : Type} (first : Setting α) (rest : List (Setting α)),
      Setting.LastOfHighest (first :: rest) (rest.foldl Setting.merge first) := by
  refine ⟨?_, fun s => chosen_of_resolve, Setting.foldl_merge⟩
  have reported := (resolve_reportsFirst env flags).mapError Failure.ofSetting
  rwa [funext Given.ofSetting_error] at reported

/-- An environment with a name for the scope parameter and the name of a feed. -/
def environmentNaming (scopeParam : String) : String → Option String
  | "TUGPATTERN_SCOPE_PARAM" => some scopeParam
  | "TUGPATTERN_BUNDLE_FEED" => some "Halt"
  | _ => none

/-- A flag outranks the name in the environment, which does not touch the feed; but if there is a
blank in that name, all is refused for it. -/
theorem resolve_by_precedence_outranked :
    (∃ s, resolve (environmentNaming "outer") { scopeParam? := some "inner" } = .ok s ∧
      s.scopeParam = ⟨"inner", .flag⟩ ∧ s.bundleFeed = ⟨.halt, .environment⟩ ∧
      s.Chosen (environmentNaming "outer") { scopeParam? := some "inner" }) ∧
    (resolve (environmentNaming "o r") { scopeParam? := some "inner" }).mapError Failure.ofSetting =
      .error (.invalidArguments "invalid scope parameter 'o r': expected an identifier") := by
  have named : Feed.halt.Named "Halt" := .cons (.capital (by decide) (by decide))
    (.cons (.same _) (.cons (.same _) (.cons (.same _) .nil)))
  have resolved : resolve (environmentNaming "outer") { scopeParam? := some "inner" } = .ok
      { defaults with scopeParam := ⟨"inner", .flag⟩, bundleFeed := ⟨.halt, .environment⟩ } := by
    simp only [resolve, apply, Layer.ofEnvironment, environmentNaming, put,
      Feed.ofName_eq_ok_iff.mpr named]
    rfl
  refine ⟨⟨_, resolved, rfl, rfl, (resolve_by_precedence _ _).2.1 _ resolved⟩, ?_⟩
  refine ((resolve_by_precedence _ _).1.error_iff _).mpr ⟨[], .scopeParam "o r", _, rfl, ?_, ?_, ?_⟩
  · exact fun _ h => nomatch h
  · rfl
  · rfl

end Settings

end TreeRewrite
