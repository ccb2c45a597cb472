import AtomicFifo.Proofs.Options.Settings

/-!
# Which command lines are accepted

A command line without a mistake has its settings first. If there are requests for help, they come
behind them, and the end of the options is the last token if there is any. Read from left to right,
the settings give their values one after another, whatever follows; and what is not spelled like
this comes to a usage error at some token.

* `Spelled`             a command line of settings, requests for help and an end
* `parseTokens_line`    the settings in front of other tokens
* `exists_spelled`      a command line on which no mistake is found is spelled so
* `parse_eq_ok_iff`, `parse_eq_help_iff`  when there are options in the end, and when there is help
* `Exact`, `accepts_exactly`   which command lines are accepted, and what becomes of the others
-/

namespace AtomicFifo

namespace OptionName

/-- The token of an option names it. -/
private theorem ofToken?_token (option : OptionName) : ofToken? option.token = some option := by
  cases option <;> decide

/-- No other token names an option. -/
private theorem eq_token_of_ofToken? {token : String} {option : OptionName}
    (h : ofToken? token = some option) : token = option.token := by
  have hfound := List.find?_some h
  exact (beq_iff_eq.1 hfound).symm

/-- Different options have different tokens. -/
private theorem token_injective : Function.Injective token := by
  intro option other h
  -- The token names its option, so it cannot name two.
  have hsame := ofToken?_token option
  rw [h, ofToken?_token] at hsame
  exact (Option.some.inj hsame).symm

/-- No option is named like the call for help. -/
private theorem token_ne_helpToken (option : OptionName) : option.token ≠ Options.helpToken := by
  cases option <;> decide

/-- No option is named like the end of the options. -/
private theorem token_ne_endToken (option : OptionName) : option.token ≠ Options.endToken := by
  cases option <;> decide

/-- The token of an option starts with a dash. -/
private theorem startsWith_token (option : OptionName) : option.token.startsWith "-" := by
  cases option <;> simp [token, word, String.startsWith_string_iff]

end OptionName

namespace Options

/-- Settings as tokens: each option, and its value behind it. -/
def line (settings : List Setting) : List String :=
  settings.flatMap fun s => [s.option.token, s.text]

/-- What a command line may end with: nothing, or the end of the options. -/
def endings : List (List String) := [[], [endToken]]

/-- A command line that consists of settings, of so many requests for help behind them, and of the
end. -/
def Spelled (settings : List Setting) (helps : Nat) (tokens : List String) : Prop :=
  ∃ ending ∈ endings, tokens = line settings ++ (List.replicate helps helpToken ++ ending)

variable {g g' : Given} {settings : List Setting} {helps : Nat} {tokens ending : List String}

/-- An ending by itself spells no settings. -/
private theorem spelled_of_mem_endings (h : ending ∈ endings) : Spelled [] 0 ending :=
  ⟨ending, h, rfl⟩

/-- One more call for help in front is one more that is spelled. -/
theorem Spelled.help (h : Spelled [] helps tokens) :
    Spelled [] (helps + 1) (helpToken :: tokens) := by
  obtain ⟨ending, hending, rfl⟩ := h
  exact ⟨ending, hending, rfl⟩

/-- One more setting in front is one more that is spelled. -/
private theorem Spelled.setting (h : Spelled settings helps tokens) (s : Setting) :
    Spelled (s :: settings) helps (s.option.token :: s.text :: tokens) := by
  obtain ⟨ending, hending, rfl⟩ := h
  exact ⟨ending, hending, rfl⟩

/-- An ending is one token at most. -/
private theorem length_le_one (h : ending ∈ endings) : ending.length ≤ 1 := by
  -- There are only two endings.
  revert ending
  decide

/-- A command line says in one way only what is set. -/
theorem Spelled.unique {settings' : List Setting} (h : Spelled settings 0 tokens)
    (h' : Spelled settings' 0 tokens) : settings = settings' := by
  obtain ⟨ending, hending, rfl⟩ := h
  obtain ⟨ending', hending', heq⟩ := h'
  have hlength := length_le_one hending
  have hlength' := length_le_one hending'
  clear hending hending'
  -- An end is too short for an option and its value, so both lists of settings go on or neither.
  induction settings generalizing settings' with
  | nil =>
    cases settings' with
    | nil => rfl
    | cons s' settings' =>
      have := congrArg List.length heq
      simp [line] at this
      omega
  | cons s settings ih =>
    cases settings' with
    | nil =>
      have := congrArg List.length heq
      simp [line] at this
      omega
    | cons s' settings' =>
      obtain ⟨option, text⟩ := s
      obtain ⟨option', text'⟩ := s'
      have hcons : option.token :: text :: (line settings ++ ending) =
          option'.token :: text' :: (line settings' ++ ending') := heq
      rw [List.cons.injEq, List.cons.injEq] at hcons
      obtain ⟨htoken, rfl, hrest⟩ := hcons
      rw [OptionName.token_injective htoken, ih hrest]

/-! ### One token after another -/

/-- The token behind an option is its value, whatever it looks like. -/
private theorem parseTokens_setting {s : Setting} (h : g.set s.option s.text = .ok g')
    (tokens : List String) :
    parseTokens false g (s.option.token :: s.text :: tokens) = parseTokens false g' tokens := by
  rw [parseTokens.eq_def]
  simp [OptionName.token_ne_helpToken, OptionName.token_ne_endToken, OptionName.startsWith_token,
    OptionName.ofToken?_token, h]

/-- A call for help is remembered, and the tokens behind it are read. -/
private theorem parseTokens_help (help : Bool) (g : Given) (tokens : List String) :
    parseTokens help g (helpToken :: tokens) = parseTokens true g tokens := by
  rw [parseTokens.eq_def]
  exact if_pos rfl

/-- At the ending it is decided whether help is given. -/
private theorem parseTokens_ending (help : Bool) (g : Given) (h : ending ∈ endings) :
    parseTokens help g ending = if help then .error .help else .ok g := by
  simp only [endings, List.mem_cons, List.not_mem_nil, or_false] at h
  obtain rfl | rfl := h
  · rfl
  · rw [parseTokens.eq_def]
    rfl

/-! ### Command lines without a mistake -/

/-- Behind calls for help nothing but the ending may stand. -/
private theorem parseTokens_replicate_help (help : Bool) (g : Given) (helps : Nat)
    (h : ending ∈ endings) :
    parseTokens help g (List.replicate helps helpToken ++ ending) =
      if help ∨ 0 < helps then .error .help else .ok g := by
  induction helps generalizing help with
  | zero => simp [parseTokens_ending help g h]
  | succ helps ih =>
    rw [List.replicate_succ, List.cons_append, parseTokens_help, ih]
    simp

/-- Settings in front of a command line give their values. -/
theorem parseTokens_line (h : g.setAll settings = .ok g') (tokens : List String) :
    parseTokens false g (line settings ++ tokens) = parseTokens false g' tokens := by
  induction settings generalizing g with
  | nil =>
    cases h
    rfl
  | cons s settings ih =>
    obtain ⟨g₁, hset, hrest⟩ := Given.setAll_cons_eq_ok_iff.1 h
    show parseTokens false g (s.option.token :: s.text :: (line settings ++ tokens)) = _
    rw [parseTokens_setting hset, ih hrest]

/-- A line that spells settings that can be given is read, unless it calls for help. -/
private theorem Spelled.parseTokens_eq (h : Spelled settings helps tokens)
    (hset : g.setAll settings = .ok g') :
    parseTokens false g tokens = if 0 < helps then .error .help else .ok g' := by
  obtain ⟨ending, hending, rfl⟩ := h
  rw [parseTokens_line hset, parseTokens_replicate_help false g' helps hending]
  simp

/-- If no mistake is found, the command line is spelled as it should be. Where help has been asked
for, settings are a mistake. -/
theorem exists_spelled {help : Bool} (h : ∀ e, parseTokens help g tokens ≠ .error (.usage e)) :
    ∃ settings helps, Spelled settings helps tokens ∧ (help → settings = []) ∧
      ∃ g', g.setAll settings = .ok g' := by
  fun_induction parseTokens help g tokens with
  | case1 | case2 => exact ⟨[], 0, spelled_of_mem_endings (by decide), fun _ => rfl, _, rfl⟩
  -- After a call for help no setting is read any more.
  | case3 help g tokens ih =>
    obtain ⟨settings, helps, hspelled, hnil, hset⟩ := ih h
    obtain rfl := hnil rfl
    exact ⟨[], helps + 1, hspelled.help, fun _ => rfl, hset⟩
  | case4 help g tokens =>
    cases tokens with
    | nil => exact ⟨[], 0, spelled_of_mem_endings (by decide), fun _ => rfl, g, rfl⟩
    | cons token tokens => exact absurd rfl (h _)
  -- In every other case the reading has failed.
  | case5 | case6 | case7 | case8 | case9 => exact absurd rfl (h _)
  -- An option and its text are one setting, and the rest spells the others.
  | case10 help g token _ _ _ hhelp option text tokens htoken g₁ hset ih =>
    obtain ⟨settings, helps, hspelled, -, g', hrest⟩ := ih h
    obtain rfl := OptionName.eq_token_of_ofToken? htoken
    exact ⟨⟨option, text⟩ :: settings, helps, hspelled.setting ⟨option, text⟩,
      fun hasked => absurd hasked hhelp, g', Given.setAll_cons_eq_ok_iff.2 ⟨g₁, hset, hrest⟩⟩

/-! ### Reading command lines -/

variable {o : Options}

/-- A line that spells settings is read as what they say, unless it calls for help. -/
private theorem Spelled.parse_eq (h : Spelled settings helps tokens) (hchosen : Chosen settings o) :
    parse tokens = if 0 < helps then .error .help else .ok o := by
  obtain ⟨g, hset, rfl⟩ := Given.chosen_iff_setAll.1 hchosen
  rw [parse, h.parseTokens_eq hset]
  split <;> rfl

/-- A line that is not refused spells settings that say something. -/
private theorem exists_chosen (h : ∀ e, parse tokens ≠ .error (.usage e)) :
    ∃ settings helps o, Spelled settings helps tokens ∧ Chosen settings o := by
  have htokens : ∀ e, parseTokens false .none tokens ≠ .error (.usage e) := by
    intro e he
    exact h e (by rw [parse, he]; rfl)
  obtain ⟨settings, helps, hspelled, -, g, hset⟩ := exists_spelled htokens
  exact ⟨settings, helps, g.complete, hspelled, Given.chosen_iff_setAll.2 ⟨g, hset, rfl⟩⟩

/-- A line is read as options exactly if it spells settings that say so. -/
theorem parse_eq_ok_iff :
    parse tokens = .ok o ↔ ∃ settings, Spelled settings 0 tokens ∧ Chosen settings o := by
  constructor
  · intro h
    have hnone : ∀ e, parse tokens ≠ .error (.usage e) := by simp [h]
    obtain ⟨settings, helps, o', hspelled, hchosen⟩ := exists_chosen hnone
    rw [hspelled.parse_eq hchosen] at h
    -- With a call for help nothing else would be answered.
    cases helps with
    | zero =>
      cases h
      exact ⟨settings, hspelled, hchosen⟩
    | succ helps => simp at h
  · rintro ⟨settings, hspelled, hchosen⟩
    exact hspelled.parse_eq hchosen

/-- A line that spells settings is read as what they say, and as nothing else. -/
theorem Spelled.parse_eq_ok_iff (h : Spelled settings 0 tokens) :
    parse tokens = .ok o ↔ Chosen settings o := by
  rw [Options.parse_eq_ok_iff]
  constructor
  · rintro ⟨settings', hspelled, hchosen⟩
    rwa [h.unique hspelled]
  · exact fun hchosen => ⟨settings, h, hchosen⟩

/-- Help is given exactly if sound settings are spelled with a call for help behind them. -/
theorem parse_eq_help_iff :
    parse tokens = .error .help ↔
      ∃ settings helps, Sound settings ∧ Spelled settings (helps + 1) tokens := by
  constructor
  · intro h
    have hnone : ∀ e, parse tokens ≠ .error (.usage e) := by simp [h]
    obtain ⟨settings, helps, o, hspelled, hchosen⟩ := exists_chosen hnone
    rw [hspelled.parse_eq hchosen] at h
    cases helps with
    | zero => simp at h
    | succ helps => exact ⟨settings, helps, sound_iff.2 ⟨o, hchosen⟩, hspelled⟩
  · rintro ⟨settings, helps, hsound, hspelled⟩
    obtain ⟨o, hchosen⟩ := sound_iff.1 hsound
    rw [hspelled.parse_eq hchosen, if_pos (Nat.succ_pos helps)]

/-- Options that are written out spell their own settings. -/
theorem spelled_render (o : Options) : Spelled o.settings 0 o.render :=
  ⟨[], by decide, (List.append_nil _).symm⟩

/-- Which command lines are accepted, and what becomes of the others. -/
structure Exact : Prop where
  /-- A command line is accepted if it consists of settings, of different options to values that
  they take, and of the end of the options or nothing. -/
  accepted_iff : ∀ tokens, (∃ o, parse tokens = .ok o) ↔
    ∃ settings, Sound settings ∧ Spelled settings 0 tokens
  /-- What is set has the value given, and everything else its usual value. -/
  chosen_iff : ∀ settings tokens, Spelled settings 0 tokens →
    ∀ o, parse tokens = .ok o ↔ Chosen settings o
  /-- So the order of the settings does not matter, -/
  order : ∀ settings settings' tokens tokens', settings.Perm settings' →
    Spelled settings 0 tokens → Spelled settings' 0 tokens' →
      ∀ o, parse tokens = .ok o ↔ parse tokens' = .ok o
  /-- and all options are read back from the settings that they are written as. -/
  render : ∀ o, parse (render o) = .ok o
  /-- Any other command line leads to an early exit. This is a success only for settings without a
  mistake with a request for help in the place of an option, and with nothing behind it but further
  requests and the end. -/
  refused : ∀ tokens, (∀ o, parse tokens ≠ .ok o) → ∃ exit, parse tokens = .error exit ∧
    (exit.success = true ↔
      ∃ settings helps, Sound settings ∧ Spelled settings (helps + 1) tokens)

/-- The command lines accepted are exactly those that consist of settings. -/
theorem accepts_exactly : Exact := by
  constructor
  case accepted_iff =>
    intro tokens
    constructor
    · rintro ⟨o, ho⟩
      obtain ⟨settings, hspelled, hchosen⟩ := parse_eq_ok_iff.1 ho
      exact ⟨settings, sound_iff.2 ⟨o, hchosen⟩, hspelled⟩
    · rintro ⟨settings, hsound, hspelled⟩
      obtain ⟨o, hchosen⟩ := sound_iff.1 hsound
      exact ⟨o, hspelled.parse_eq_ok_iff.2 hchosen⟩
  case chosen_iff => exact fun settings tokens hspelled o => hspelled.parse_eq_ok_iff
  -- The order of the settings does not matter for what they say.
  case order =>
    intro settings settings' tokens tokens' hperm hspelled hspelled' o
    rw [hspelled.parse_eq_ok_iff, hspelled'.parse_eq_ok_iff]
    exact ⟨fun h => h.perm hperm, fun h => h.perm hperm.symm⟩
  case render => exact fun o => (spelled_render o).parse_eq_ok_iff.2 (chosen_settings o)
  -- A line that is not read is refused with an error or answered with the help.
  case refused =>
    intro tokens hrefused
    cases hparse : parse tokens with
    | ok o => exact absurd hparse (hrefused o)
    | error exit =>
      refine ⟨exit, rfl, ?_⟩
      rw [← parse_eq_help_iff, hparse]
      cases exit <;> simp [EarlyExit.success]

/-- Two settings in either order, with the end of the options and without it; and with a request for
help behind them. -/
theorem accepts_exactly_swapped :
    parse ["--items", "+7", "--flavor", "ptr", "--"] = .ok ⟨4, 4, 7, 1, .ptr⟩ ∧
    parse ["--flavor", "ptr", "--items", "+7"] = .ok ⟨4, 4, 7, 1, .ptr⟩ ∧
    ∃ exit, parse ["--items", "+7", "--flavor", "ptr", "--help"] = .error exit ∧
      exit.success = true := by
  have hexact := accepts_exactly
  let settings : List Setting := [⟨.items, "+7"⟩, ⟨.flavor, "ptr"⟩]
  have hsettings : Chosen settings ⟨4, 4, 7, 1, .ptr⟩ := by
    constructor
    case nodup => decide
    case written =>
      simp only [settings, List.forall_mem_cons]
      have hnumeral : Word.Numeral "+7" 7 :=
        ⟨['7'], by decide, List.forall_mem_singleton.2 rfl, .inr rfl, rfl⟩
      exact ⟨hnumeral, rfl, by simp⟩
    case usual =>
      intro option hoption
      cases option with
      | items | flavor => exact absurd (by simp [settings]) hoption
      | producers | consumers | rounds => rfl
  have hspelled : Spelled settings 0 ["--items", "+7", "--flavor", "ptr", "--"] :=
    ⟨[endToken], by decide, rfl⟩
  have hspelled' : Spelled settings.reverse 0 ["--flavor", "ptr", "--items", "+7"] :=
    ⟨[], by decide, rfl⟩
  have hhelp : Spelled settings 1 ["--items", "+7", "--flavor", "ptr", "--help"] :=
    ⟨[], by decide, rfl⟩
  have hparse := (hexact.chosen_iff settings _ hspelled _).2 hsettings
  refine ⟨hparse, ?_, ?_⟩
  · exact (hexact.order _ _ _ _ settings.reverse_perm.symm hspelled hspelled' _).1 hparse
  · have hrefused : ∀ o, parse ["--items", "+7", "--flavor", "ptr", "--help"] ≠ .ok o := by
      intro o ho
      rw [hhelp.parse_eq hsettings] at ho
      cases ho
    obtain ⟨exit, hexit, hsuccess⟩ := hexact.refused _ hrefused
    exact ⟨exit, hexit, hsuccess.2 ⟨settings, 0, sound_iff.2 ⟨_, hsettings⟩, hhelp⟩⟩

/-- The token behind an option is no request for help. -/
example : parse ["--flavor", "--help"] =
    .error (.usage (.badValue .flavor "--help" .flavor)) := by cbv

end Options

end AtomicFifo
