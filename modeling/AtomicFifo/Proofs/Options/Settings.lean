import AtomicFifo.Options
import AtomicFifo.Proofs.Word.Decimal
import Mathlib.Logic.Function.Basic

/-!
# Settings of options

A command line gives one option after another its value. By the names of the options, the values
given so far are a function, and to give an option its value is to update this function in one place
that has none yet.

* `OptionName.Written`       which texts stand for a value of an option
* `Setting.Accepted`         which texts an option takes
* `Options.Sound`            which settings can be made
* `Options.Chosen`           what settings say of all options
* `Given.set_eq_ok_iff`      giving an option its value, in one statement for all options
* `Given.setAll_eq_ok_iff`   giving options their values one after another
* `Given.chosen_iff_setAll`  what settings say is what they give
-/

namespace AtomicFifo

namespace Options.Given

/-- A text is read as a number if it is a numeral for it. -/
private theorem readNumber_eq_ok_iff {text : String} {w : Word} :
    readNumber text = .ok w ↔ Word.Numeral text w.toNat := by
  rw [← Word.ofDecimal_eq_ok_iff, readNumber]
  cases Word.ofDecimal text <;> simp

/-- A text is read as a flavor if it is the word for it. -/
private theorem readFlavor_eq_ok_iff {text : String} {f : Flavor} :
    readFlavor text = .ok f ↔ text = f.word := by
  rw [← Flavor.ofWord?_eq_some_iff, readFlavor]
  cases Flavor.ofWord? text <;> simp

end Options.Given

namespace OptionName

/-- What an option takes for its value. -/
def Value : OptionName → Type
  | .producers | .consumers | .items | .rounds => Word
  | .flavor => Flavor

/-- The text stands for this value of the option. -/
def Written : (option : OptionName) → String → option.Value → Prop
  | .producers, text, w | .consumers, text, w | .items, text, w | .rounds, text, w =>
    Word.Numeral text (UInt64.toNat w)
  | .flavor, text, f => text = Flavor.word f

/-- Reads the value of an option. -/
def read : (option : OptionName) → String → Except ValueError option.Value
  | .producers | .consumers | .items | .rounds => Options.Given.readNumber
  | .flavor => Options.Given.readFlavor

/-- A text is read as a value exactly if it stands for it. -/
private theorem read_eq_ok_iff {option : OptionName} {text : String} {value : option.Value} :
    option.read text = .ok value ↔ option.Written text value := by
  cases option with
  | producers | consumers | items | rounds => exact Options.Given.readNumber_eq_ok_iff
  | flavor => exact Options.Given.readFlavor_eq_ok_iff

end OptionName

/-- An option with the text that is given for its value. -/
structure Setting where
  option : OptionName
  text : String
  deriving DecidableEq, Repr

/-- The option takes the text for a value: a number of 64 bits, or one of the two flavors. -/
def Setting.Accepted (s : Setting) : Prop :=
  match s.option with
  | .producers | .consumers | .items | .rounds => ∃ n < UInt64.size, Word.Numeral s.text n
  | .flavor => s.text = "ref" ∨ s.text = "ptr"

/-- An option takes the texts that stand for a value of it. -/
private theorem Setting.accepted_iff {s : Setting} :
    s.Accepted ↔ ∃ value, s.option.Written s.text value := by
  obtain ⟨option, text⟩ := s
  cases option with
  | producers | consumers | items | rounds =>
    constructor
    · rintro ⟨n, hlt, hnumeral⟩
      -- A numeral for a number below the bound stands for that number as a word.
      refine ⟨UInt64.ofNat n, ?_⟩
      show Word.Numeral text (UInt64.ofNat n).toNat
      rwa [UInt64.toNat_ofNat_of_lt' hlt]
    · rintro ⟨w, hnumeral⟩
      exact ⟨UInt64.toNat w, UInt64.toNat_lt w, hnumeral⟩
  | flavor =>
    constructor
    · rintro (h | h)
      · exact ⟨Flavor.ref, h⟩
      · exact ⟨Flavor.ptr, h⟩
    · rintro ⟨_ | _, h⟩
      · exact .inl h
      · exact .inr h

/-- Behind the first setting of an option come settings of other ones. -/
private theorem Setting.option_ne {s t : Setting} {settings : List Setting}
    (h : s.option ∉ settings.map Setting.option) (ht : t ∈ settings) : t.option ≠ s.option :=
  fun heq => h (heq ▸ List.mem_map_of_mem ht)

namespace Options

/-! ### Options by name -/

/-- The value of an option. -/
def get (o : Options) : (option : OptionName) → option.Value
  | .producers => o.producers
  | .consumers => o.consumers
  | .items => o.items
  | .rounds => o.rounds
  | .flavor => o.flavor

/-- The values of options that are not given. -/
def usual : Options := ⟨4, 4, 100000, 1, .ref⟩

/-- Options that agree on every option are the same. -/
private theorem ext_get {o o' : Options} (h : ∀ option, o.get option = o'.get option) : o = o' := by
  cases o
  cases o'
  simp only [mk.injEq]
  exact ⟨h .producers, h .consumers, h .items, h .rounds, h .flavor⟩

/-- What settings say of the options: each option is set once at most, to the value that its text
stands for, and an option that is not set has its usual value. -/
structure Chosen (settings : List Setting) (o : Options) : Prop where
  nodup : (settings.map Setting.option).Nodup
  written : ∀ s ∈ settings, s.option.Written s.text (o.get s.option)
  usual : ∀ option ∉ settings.map Setting.option, o.get option = usual.get option

/-- Settings that can be made: of different options, each to a value that the option takes. -/
structure Sound (settings : List Setting) : Prop where
  nodup : (settings.map Setting.option).Nodup
  accepted : ∀ s ∈ settings, s.Accepted

/-- The order of the settings does not matter. -/
theorem Chosen.perm {settings settings' : List Setting} {o : Options} (h : Chosen settings o)
    (hperm : settings.Perm settings') : Chosen settings' o := by
  have hnames := hperm.map Setting.option
  constructor
  case nodup => exact hnames.nodup_iff.1 h.nodup
  case written => exact fun s hs => h.written s (hperm.mem_iff.2 hs)
  case usual =>
    intro option hoption
    exact h.usual option fun hmem => hoption (hnames.mem_iff.1 hmem)

/-- Settings for all options. -/
def settings (o : Options) : List Setting :=
  [⟨.producers, o.producers.toDecimal⟩, ⟨.consumers, o.consumers.toDecimal⟩,
    ⟨.items, o.items.toDecimal⟩, ⟨.rounds, o.rounds.toDecimal⟩, ⟨.flavor, o.flavor.word⟩]

/-- The settings of options say what the options are. -/
theorem chosen_settings (o : Options) : Chosen o.settings o := by
  constructor
  case nodup => simp [settings]
  case written =>
    simp only [settings, List.forall_mem_cons]
    exact ⟨Word.numeral_toDecimal _, Word.numeral_toDecimal _, Word.numeral_toDecimal _,
      Word.numeral_toDecimal _, rfl, by simp⟩
  case usual =>
    intro option hoption
    exact absurd (by cases option <;> simp [settings]) hoption

/-! ### Giving values -/

namespace Given

/-- The value that an option has been given. -/
def get (g : Given) : (option : OptionName) → Option option.Value
  | .producers => g.producers
  | .consumers => g.consumers
  | .items => g.items
  | .rounds => g.rounds
  | .flavor => g.flavor

/-- The values that a function tells. -/
def ofFun (f : (option : OptionName) → Option option.Value) : Given :=
  ⟨f .producers, f .consumers, f .items, f .rounds, f .flavor⟩

/-- What is given by a function is read back by name. -/
@[simp]
theorem get_ofFun (f : (option : OptionName) → Option option.Value) : (ofFun f).get = f := by
  funext option
  cases option <;> rfl

/-- What is given is determined by what is read by name. -/
@[simp]
theorem ofFun_get (g : Given) : ofFun g.get = g := rfl

/-- At the start no option has a value. -/
private theorem get_none (option : OptionName) : Given.none.get option = .none := by
  cases option <;> rfl

/-- An option without a value takes its usual one. -/
private theorem get_complete (g : Given) (option : OptionName) :
    g.complete.get option = (g.get option).getD (usual.get option) := by
  cases option <;> rfl

/-- Gives an option a value, whether it has one or not. -/
def put (g : Given) (option : OptionName) (value : option.Value) : Given :=
  ofFun (Function.update g.get option (some value))

/-- An option that is given a value has it. -/
@[simp]
theorem get_put_self (g : Given) (option : OptionName) (value : option.Value) :
    (g.put option value).get option = some value := by
  rw [put, get_ofFun, Function.update_self]

/-- Giving an option its value leaves the others theirs. -/
private theorem get_put_of_ne (g : Given) {option other : OptionName} (value : option.Value)
    (h : other ≠ option) : (g.put option value).get other = g.get other := by
  rw [put, get_ofFun, Function.update_of_ne h]

/-- A place is filled exactly if it was vacant and the text is read. -/
private theorem map_fill_eq_ok_iff {β γ : Type} {place : Option β}
    {read : String → Except ValueError β} {text : String} {f : Option β → γ} {c : γ} :
    (fill place read text).map f = .ok c ↔
      place = .none ∧ ∃ value, read text = .ok value ∧ c = f (some value) := by
  cases place with
  -- A place that has a value already is refused another one.
  | some value => simp [fill, Except.map]
  | none =>
    simp only [fill]
    cases read text <;> simp [Except.map, eq_comm]

/-- An option without a value is given the one that the text stands for. -/
theorem set_eq_ok_iff {g g' : Given} {option : OptionName} {text : String} :
    g.set option text = .ok g' ↔
      g.get option = .none ∧ ∃ value, option.Written text value ∧ g' = g.put option value := by
  simp only [← OptionName.read_eq_ok_iff]
  cases option with
  | producers | consumers | items | rounds | flavor => exact map_fill_eq_ok_iff

/-- Gives options their values one after another. -/
def setAll (g : Given) (settings : List Setting) : Except ValueError Given :=
  settings.foldlM (fun g s => g.set s.option s.text) g

/-- Settings are made one after the other. -/
theorem setAll_cons_eq_ok_iff {g g' : Given} {s : Setting} {settings : List Setting} :
    g.setAll (s :: settings) = .ok g' ↔
      ∃ g₁, g.set s.option s.text = .ok g₁ ∧ g₁.setAll settings = .ok g' := by
  rw [setAll, List.foldlM_cons]
  cases g.set s.option s.text with
  | error e => simp [bind, Except.bind]
  | ok g₁ => simp [bind, Except.bind, setAll]

/-- What has become of the values given when options are set: each was without a value, and is set
once at most, to the value that its text stands for. -/
structure Filled (g : Given) (settings : List Setting) (g' : Given) : Prop where
  nodup : (settings.map Setting.option).Nodup
  vacant : ∀ s ∈ settings, g.get s.option = .none
  written : ∀ s ∈ settings, ∃ value, s.option.Written s.text value ∧ g'.get s.option = some value
  kept : ∀ option ∉ settings.map Setting.option, g'.get option = g.get option

variable {g g' : Given} {s : Setting} {settings : List Setting}

/-- Without settings everything stays as it is. -/
private theorem filled_nil_iff : g.Filled [] g' ↔ g = g' := by
  constructor
  · intro h
    rw [← ofFun_get g, ← ofFun_get g', funext fun option => h.kept option (by simp)]
  · rintro rfl
    exact ⟨by simp, by simp, by simp, fun _ _ => rfl⟩

/-- The first setting leaves its option without room for another one. -/
private theorem filled_cons_iff : g.Filled (s :: settings) g' ↔
    g.get s.option = .none ∧
      ∃ value, s.option.Written s.text value ∧ (g.put s.option value).Filled settings g' := by
  constructor
  · intro h
    obtain ⟨hfresh, hnodup⟩ := List.nodup_cons.1 h.nodup
    obtain ⟨value, hwritten, hvalue⟩ := h.written s List.mem_cons_self
    refine ⟨h.vacant s List.mem_cons_self, value, hwritten, ?_⟩
    constructor
    case nodup => exact hnodup
    case written => exact fun t ht => h.written t (List.mem_cons_of_mem s ht)
    case vacant =>
      intro t ht
      rw [get_put_of_ne g value (Setting.option_ne hfresh ht)]
      exact h.vacant t (List.mem_cons_of_mem s ht)
    case kept =>
      intro option hoption
      -- The first setting fills its own place, and the others fill theirs.
      by_cases heq : option = s.option
      · subst heq
        rw [hvalue, get_put_self]
      · rw [get_put_of_ne g value heq]
        exact h.kept option (List.not_mem_cons_of_ne_of_not_mem heq hoption)
  · rintro ⟨hvacant, value, hwritten, h⟩
    -- A second setting of the same option would find its place filled.
    have hfresh : s.option ∉ settings.map Setting.option := by
      intro hmem
      obtain ⟨t, ht, heq⟩ := List.mem_map.1 hmem
      have hnone := h.vacant t ht
      rw [heq, get_put_self] at hnone
      cases hnone
    constructor
    case nodup => exact List.nodup_cons.2 ⟨hfresh, h.nodup⟩
    case vacant =>
      rw [List.forall_mem_cons]
      refine ⟨hvacant, fun t ht => ?_⟩
      rw [← get_put_of_ne g value (Setting.option_ne hfresh ht)]
      exact h.vacant t ht
    case written =>
      rw [List.forall_mem_cons]
      exact ⟨⟨value, hwritten, by rw [h.kept _ hfresh, get_put_self]⟩, h.written⟩
    case kept =>
      intro option hoption
      rw [List.map_cons, List.mem_cons, not_or] at hoption
      rw [h.kept option hoption.2, get_put_of_ne g value hoption.1]

/-- Settings are made exactly if they fill vacant places with values that they stand for. -/
theorem setAll_eq_ok_iff : g.setAll settings = .ok g' ↔ g.Filled settings g' := by
  induction settings generalizing g with
  | nil =>
    rw [filled_nil_iff]
    simp [setAll, pure, Except.pure]
  | cons s settings ih =>
    simp only [setAll_cons_eq_ok_iff, set_eq_ok_iff, filled_cons_iff, ih]
    constructor
    · rintro ⟨_, ⟨hvacant, value, hwritten, rfl⟩, h⟩
      exact ⟨hvacant, value, hwritten, h⟩
    · rintro ⟨hvacant, value, hwritten, h⟩
      exact ⟨_, ⟨hvacant, value, hwritten, rfl⟩, h⟩

/-- Options without a value can be set to all values that they take. -/
private theorem exists_filled (h : Sound settings)
    (hvacant : ∀ s ∈ settings, g.get s.option = .none) : ∃ g', g.Filled settings g' := by
  induction settings generalizing g with
  | nil => exact ⟨g, filled_nil_iff.2 rfl⟩
  | cons s settings ih =>
    obtain ⟨hfresh, hnodup⟩ := List.nodup_cons.1 h.nodup
    obtain ⟨value, hwritten⟩ := Setting.accepted_iff.1 (h.accepted s List.mem_cons_self)
    have hrest : ∀ t ∈ settings, (g.put s.option value).get t.option = .none := by
      intro t ht
      rw [get_put_of_ne g value (Setting.option_ne hfresh ht)]
      exact hvacant t (List.mem_cons_of_mem s ht)
    obtain ⟨g', hg'⟩ := ih ⟨hnodup, fun t ht => h.accepted t (List.mem_cons_of_mem s ht)⟩ hrest
    exact ⟨g', filled_cons_iff.2 ⟨hvacant s List.mem_cons_self, value, hwritten, hg'⟩⟩

/-- Nothing is given at first. So what settings say is what they give, and the usual values in
addition. -/
theorem chosen_iff_setAll {o : Options} :
    Chosen settings o ↔ ∃ g, none.setAll settings = .ok g ∧ g.complete = o := by
  simp only [setAll_eq_ok_iff]
  constructor
  · intro h
    -- What is given are the values of the options that are set.
    let g := ofFun fun option =>
      if option ∈ settings.map Setting.option then some (o.get option) else .none
    have hget : ∀ option, g.get option =
        if option ∈ settings.map Setting.option then some (o.get option) else .none :=
      congrFun (get_ofFun _)
    refine ⟨g, ?_, ext_get fun option => ?_⟩
    · constructor
      case nodup => exact h.nodup
      case vacant => exact fun s _ => get_none s.option
      case written =>
        intro s hs
        refine ⟨o.get s.option, h.written s hs, ?_⟩
        rw [hget, if_pos (List.mem_map_of_mem hs)]
      case kept =>
        intro option hoption
        rw [hget, if_neg hoption, get_none]
    · rw [get_complete, hget]
      split
      · rfl
      · rw [h.usual option ‹_›]
        rfl
  · rintro ⟨g, h, rfl⟩
    constructor
    case nodup => exact h.nodup
    case written =>
      intro s hs
      obtain ⟨value, hwritten, hvalue⟩ := h.written s hs
      rw [get_complete, hvalue]
      exact hwritten
    case usual =>
      intro option hoption
      rw [get_complete, h.kept option hoption, get_none]
      rfl

end Given

/-- Settings that can be made say something of all options, and no others do. -/
theorem sound_iff {settings : List Setting} : Sound settings ↔ ∃ o, Chosen settings o := by
  constructor
  · intro h
    obtain ⟨g, hg⟩ := Given.exists_filled h fun s _ => Given.get_none s.option
    exact ⟨g.complete, Given.chosen_iff_setAll.2 ⟨g, Given.setAll_eq_ok_iff.2 hg, rfl⟩⟩
  · rintro ⟨o, h⟩
    exact ⟨h.nodup, fun s hs => Setting.accepted_iff.2 ⟨_, h.written s hs⟩⟩

end Options

end AtomicFifo
