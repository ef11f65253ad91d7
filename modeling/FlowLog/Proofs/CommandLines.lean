import FlowLog.Command.Invocation
import FlowLog.Proofs.Descriptions

/-! What a command line can ask for. Every value that is read was checked for its option, and every
other argument is a path; so a merge that is read has names for its output and its inputs. In turn a
merge with any names can be written down, and so can the listing of any file for any tag. -/

namespace FlowLog
namespace Command

namespace Given

/-- Every option has a value of its kind, and no other argument is empty. -/
structure Sound (g : Given) : Prop where
  options : ∀ o ∈ g.options, o.1.takes.accepts o.2
  plain : "" ∉ g.plain

variable {g g' : Given} {k : Key} {v : String}

theorem sound_empty : empty.Sound := ⟨nofun, nofun⟩

theorem Sound.add (h : g.Sound) (hadd : g.add k v = .ok g') : g'.Sound := by
  unfold Given.add at hadd
  split at hadd
  · cases hadd
  · split at hadd
    · cases hadd
    · rename_i hfit
      cases hadd
      simp only [Bool.or_eq_true, Bool.not_eq_true', not_or, Bool.not_eq_false] at hfit
      refine ⟨List.forall_mem_append.2 ⟨h.options, ?_⟩, h.plain⟩
      exact List.forall_mem_singleton.2 hfit.2

theorem Sound.takePlain {plain : Plain} {ss : List String} (h : g.Sound)
    (htake : takePlain plain g ss = .ok g') : g'.Sound := by
  unfold Command.takePlain at htake
  split at htake
  · rename_i hall
    cases htake
    refine ⟨h.options, List.not_mem_append h.plain fun hmem => ?_⟩
    simpa using List.all_eq_true.1 hall "" hmem
  · cases htake

variable {ks : List Key} {waiting : Option Key}

theorem Sound.takeLong {name : List Char} {value : Option (List Char)} (h : g.Sound)
    (htake : takeLong ks g name value = .ok (g', waiting)) : g'.Sound := by
  unfold Command.takeLong at htake
  split at htake
  · cases htake
  · split at htake
    · obtain ⟨e, he, htake⟩ := bind_eq_ok.1 htake
      cases htake
      exact h.add he
    · cases htake
    · obtain ⟨e, he, htake⟩ := bind_eq_ok.1 htake
      cases htake
      exact h.add he
    · cases htake
      exact h

theorem Sound.takeShort {letters : List Char} (h : g.Sound)
    (htake : takeShort ks g letters = .ok (g', waiting)) : g'.Sound := by
  induction letters generalizing g with
  | nil =>
    cases htake
    exact h
  | cons c r ih =>
    unfold Command.takeShort at htake
    split at htake
    · cases htake
    · split at htake
      · obtain ⟨e, he, htake⟩ := bind_eq_ok.1 htake
        exact ih (h.add he) htake
      · split at htake
        · cases htake
          exact h
        all_goals
          obtain ⟨e, he, htake⟩ := bind_eq_ok.1 htake
          cases htake
          exact h.add he

/-- Whatever is read from a command line is sound. -/
theorem Sound.scan {plain : Plain} {args rest : List String} (h : g.Sound)
    (hscan : scan ks plain waiting g args = .ok (g', rest)) : g'.Sound := by
  induction args generalizing waiting g with
  | nil =>
    unfold Command.scan at hscan
    split at hscan <;> cases hscan
    exact h
  | cons a args ih =>
    cases waiting with
    | some k =>
      rw [scan.eq_2] at hscan
      split at hscan
      · obtain ⟨e, he, hscan⟩ := bind_eq_ok.1 hscan
        exact ih (h.add he) hscan
      · cases hscan
    | none =>
      rw [scan.eq_3] at hscan
      split at hscan
      · split at hscan
        · cases hscan
          exact h
        · obtain ⟨e, he, hscan⟩ := bind_eq_ok.1 hscan
          exact ih (h.takePlain he) hscan
      · obtain ⟨e, he, hscan⟩ := bind_eq_ok.1 hscan
        cases hscan
        exact h.takePlain he
      · obtain ⟨⟨e, w⟩, he, hscan⟩ := bind_eq_ok.1 hscan
        exact ih (h.takeLong he) hscan
      · obtain ⟨⟨e, w⟩, he, hscan⟩ := bind_eq_ok.1 hscan
        exact ih (h.takeShort he) hscan

theorem mem_of_get? (h : g.get? k = some v) : (k, v) ∈ g.options := by
  obtain ⟨o, ho, rfl⟩ := Option.map_eq_some_iff.1 h
  have hk := List.find?_some ho
  simp only [decide_eq_true_eq] at hk
  exact hk ▸ List.mem_of_find?_eq_some ho

end Given

variable {output : String} {inputs : List String}

theorem task?_eq_merge {v : Verb} {g : Given} : v.task? g = some (.merge output inputs) ↔
    v = .merge ∧ g.get? .output = some output ∧ g.plain = inputs ∧ inputs ≠ [] := by
  cases v with
  | merge =>
    by_cases hplain : g.plain = []
    · simp only [Verb.task?, hplain]
      grind
    · simp only [Verb.task?, if_neg hplain, Option.bind_eq_bind, Option.bind_eq_some_iff]
      grind
  | time =>
    simp only [Verb.task?]
    split <;> simp
  | _ => simp [Verb.task?, Option.bind_eq_some_iff]

theorem names_of_parse {args : List String} {config : String}
    (h : parse args = .ok ⟨config, .merge output inputs⟩) :
    output ≠ "" ∧ inputs ≠ [] ∧ "" ∉ inputs := by
  obtain ⟨⟨whole, rest⟩, -, h⟩ := bind_eq_ok.1 h
  dsimp only at h
  split at h
  · cases h
  split at h
  · cases h
  split at h
  · cases h
  obtain ⟨⟨own, _⟩, hscan, h⟩ := bind_eq_ok.1 h
  dsimp only at h
  split at h
  · cases h
  rename_i htask
  cases h
  obtain ⟨rfl, houtput, rfl, hinputs⟩ := task?_eq_merge.1 htask
  have hown := Given.sound_empty.scan hscan
  have haccepts := hown.options _ (Given.mem_of_get? houtput)
  exact ⟨by simpa [Key.takes, Takes.accepts] using haccepts, hinputs, hown.plain⟩

/-! Lines that are read: the name of a command, its path attached to the option that takes it, and what
else the command wants. -/

theorem splitValue_append {name : List Char} (h : '=' ∉ name) (value : List Char) :
    splitValue (name ++ '=' :: value) = (name, some value) := by
  induction name with
  | nil => rfl
  | cons c name ih =>
    obtain ⟨hc, hname⟩ := not_or.1 (List.mem_cons.not.1 h)
    rw [List.cons_append, splitValue, if_neg (Ne.symm hc), ih hname]

theorem look_value {name : List Char} (h : '=' ∉ name) {s : String} {value : List Char}
    (hs : s.toList = '-' :: '-' :: (name ++ '=' :: value)) : Look.of s = .long name (some value) := by
  have hsplit := splitValue_append h value
  have hne : name ++ '=' :: value ≠ [] := List.append_ne_nil_of_right_ne_nil name (by simp)
  obtain ⟨c, r, hr⟩ := List.exists_cons_of_ne_nil hne
  rw [hr] at hs hsplit
  rw [Look.of, hs]
  simp [hsplit]

theorem takeLong_path {ks : List Key} {k : Key} {path : String}
    (hk : ks.find? (fun l => l.long.toList = k.long.toList) = some k) (htakes : k.takes = .path)
    (hpath : path ≠ "") :
    takeLong ks .empty k.long.toList (some path.toList) = .ok (⟨[(k, path)], []⟩, none) := by
  have hhelp : k ≠ .help := by
    rintro rfl
    cases htakes
  rw [takeLong, hk]
  simp [htakes, Given.add, Given.has, Given.get?, Given.empty, Takes.accepts, hhelp, hpath, bind,
    Except.bind, pure, Except.pure]

/-- What follows a command's name is read with the options of the command. -/
theorem parse_verb {v : Verb} {args rest : List String} {g : Given} {task : Task}
    (hscan : scan (sharedKeys ++ v.keys) v.plain none .empty args = .ok (g, rest))
    (hconfig : g.get? .config = none) (htask : v.task? g = some task) :
    parse (v.text :: args) = .ok ⟨Config.path, task⟩ := by
  have hlook : Look.of v.text = .plain := by cases v <;> decide +kernel
  have hverb : Verb.ofText? v.text = some v := by cases v <;> decide +kernel
  have hhelp : v.text ≠ "help" := by cases v <;> decide +kernel
  have hwhole : scan sharedKeys .name none .empty (v.text :: args) =
      .ok (.empty, v.text :: args) := by simp [scan, hlook]
  rw [parse, hwhole]
  simp only [bind, Except.bind, if_neg hhelp, hverb, hscan, hconfig, htask]
  simp [Given.get?, Given.empty]

/-! Any names can be given that are not empty: those of the inputs behind two dashes, where nothing is
an option. -/

def mergeLine (output : String) (inputs : List String) : List String :=
  "merge" :: ("--output=" ++ output) :: "--" :: inputs

theorem look_output (output : String) :
    Look.of ("--output=" ++ output) = .long Key.output.long.toList (some output.toList) :=
  look_value (by decide) (by rw [String.toList_append]; rfl)

/-- The options of the command itself, read from the arguments behind its name. -/
theorem scan_mergeLine (houtput : output ≠ "") (hnames : "" ∉ inputs) :
    scan (sharedKeys ++ Verb.keys .merge) .paths none .empty
      (("--output=" ++ output) :: "--" :: inputs) = .ok (⟨[(.output, output)], inputs⟩, []) := by
  have hkey : (sharedKeys ++ Verb.keys .merge).find?
      (fun k => k.long.toList = Key.output.long.toList) = some .output := by decide +kernel
  have hescape : Look.of "--" = .escape := by decide +kernel
  have hplain : takePlain .paths ⟨[(.output, output)], []⟩ inputs =
      .ok ⟨[(.output, output)], inputs⟩ := by simp [takePlain, hnames]
  rw [scan.eq_3, look_output]
  simp only [takeLong_path hkey rfl houtput]
  simp [scan, hescape, hplain, bind, Except.bind, pure, Except.pure]

theorem parse_mergeLine (houtput : output ≠ "") (hinputs : inputs ≠ []) (hnames : "" ∉ inputs) :
    parse (mergeLine output inputs) = .ok ⟨Config.path, .merge output inputs⟩ := by
  have htask : Verb.merge.task? ⟨[(.output, output)], inputs⟩ = some (.merge output inputs) := by
    simp [Verb.task?, Given.get?, hinputs]
  have hconfig : Given.get? ⟨[(.output, output)], inputs⟩ .config = none := by simp [Given.get?]
  exact parse_verb (v := .merge) (scan_mergeLine houtput hnames) hconfig htask

/-- A merge can be asked for just when there are inputs and no name is empty. -/
theorem exists_parse_merge : (∃ args config, parse args = .ok ⟨config, .merge output inputs⟩) ↔
    output ≠ "" ∧ inputs ≠ [] ∧ "" ∉ inputs :=
  ⟨fun ⟨_, _, h⟩ => names_of_parse h,
    fun ⟨houtput, hinputs, hnames⟩ => ⟨_, _, parse_mergeLine houtput hinputs hnames⟩⟩

/-! The listing of a file for a tag. -/

def eventsLine (input : String) (t : Tag) : List String :=
  ["events", "--input=" ++ input, "--type", t.text]

theorem look_input (input : String) :
    Look.of ("--input=" ++ input) = .long Key.input.long.toList (some input.toList) :=
  look_value (by decide) (by rw [String.toList_append]; rfl)

theorem scan_eventsLine {input : String} (hinput : input ≠ "") (t : Tag) :
    scan (sharedKeys ++ Verb.keys .events) .nothing none .empty
      ["--input=" ++ input, "--type", t.text] =
        .ok (⟨[(.input, input), (.type, t.text)], []⟩, []) := by
  have hkey : (sharedKeys ++ Verb.keys .events).find?
      (fun k => k.long.toList = Key.input.long.toList) = some .input := by decide +kernel
  have hlook : Look.of "--type" = .long Key.type.long.toList none := by decide +kernel
  have htype : takeLong (sharedKeys ++ Verb.keys .events) ⟨[(.input, input)], []⟩
      Key.type.long.toList none = .ok (⟨[(.input, input)], []⟩, some .type) := rfl
  -- No tag looks like an option.
  have hfollow : mayFollow .type t.text := by cases t <;> decide +kernel
  rw [scan.eq_3, look_input]
  simp only [takeLong_path hkey rfl hinput]
  simp [scan, hlook, htype, hfollow, Given.add, Given.has, Given.get?, Key.takes, Takes.accepts,
    bind, Except.bind]

theorem parse_eventsLine {input : String} (hinput : input ≠ "") (t : Tag) :
    parse (eventsLine input t) = .ok ⟨Config.path, .events input (some t.text)⟩ := by
  have htask : Verb.events.task? ⟨[(.input, input), (.type, t.text)], []⟩ =
      some (.events input (some t.text)) := by simp [Verb.task?, Given.get?]
  have hconfig : Given.get? ⟨[(.input, input), (.type, t.text)], []⟩ .config = none := by
    simp [Given.get?]
  exact parse_verb (v := .events) (scan_eventsLine hinput t) hconfig htask

end Command
end FlowLog
