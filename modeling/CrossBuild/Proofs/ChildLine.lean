import CrossBuild.Proofs.FanOut
import CrossBuild.Proofs.OpeningDownload

/-!
# The line that describes a child

What the program takes the words of such a line for. They name the settings' file, the host, the platform
and the file to write, and nothing else: a child is always asked for below the projects of the settings.
-/

namespace CrossBuild.Proofs
open CommandLine Settings

/-- The words of the line have values that no command line reads as options. An empty path that the
environment stands in with would be refused before anything else is read. -/
structure ReadsLiterally (vars : Run.Variables) (s : Settings) (host platform : String) : Prop where
  environment : Parameter.fallback? vars .config ≠ some ""
  source : CanNameSource s
  output : IsPlainWord (s.childDescriptor host platform)
  host : IsPlainWord host
  platform : IsPlainWord platform

/-- What the line asks for. -/
def childOptions (s : Settings) (host platform : String) : GenerateOptions where
  child := true
  host := some host
  platform := some platform
  root := none
  output := some (s.childDescriptor host platform)

lemma childDescriptor_ne_empty (s : Settings) (host platform : String) :
    s.childDescriptor host platform ≠ "" := by
  simp [childDescriptor]

lemma read_flag (vars : Run.Variables) {level : Level} {given : Given} {p : Parameter}
    (hlevel : level.optionNamed? p.name = some p) (htakes : p.takes = .nothing)
    (hgive : level.give given p "" = .ok { given with values := given.values ++ [(p, "")] })
    (rest : List String) :
    level.read vars given (p.display :: rest) =
      level.read vars { given with values := given.values ++ [(p, "")] } rest := by
  have hoption : level.giveOption given p.display =
      .ok (.done { given with values := given.values ++ [(p, "")] }) := by
    unfold Level.giveOption Level.giveLong
    rw [ofText_display]
    simp only [hlevel, htakes, hgive]
    rfl
  rw [Level.read, ofText_display]
  simp only [hoption]

section Line

variable {vars : Run.Variables} {s : Settings} {host platform : String}
  (h : ReadsLiterally vars s host platform)

include h

/-- What follows the name of the command. -/
lemma read_childOptions :
    Level.generate.read vars .nothing ["--child", "--host", host, "--platform", platform, "--output",
        s.childDescriptor host platform] =
      .ok ⟨.generate, ⟨[(.child, ""), (.host, host), (.platform, platform),
        (.output, s.childDescriptor host platform)], []⟩⟩ := by
  have hpaths : ∀ p ∈ Level.generate.options, p.takes = .path → p = .config ∨ p.variableName? = none := by
    decide
  have hfallbacks : ∀ given, Level.generate.checkFallbacks vars given = .ok () := by
    intro given
    rw [checkFallbacks_eq_ok]
    intro p hp htakes _
    rcases hpaths p hp htakes with rfl | hnone
    · exact h.environment
    · simp [Parameter.fallback?, hnone]
  have hchild : "--child" = Parameter.display .child := by decide
  have hhost : "--host" = Parameter.display .host := by decide
  have hplatform : "--platform" = Parameter.display .platform := by decide
  have houtput : "--output" = Parameter.display .output := by decide
  rw [hchild, hhost, hplatform, houtput, read_flag vars (by decide) rfl rfl,
    read_option vars (by decide) (by decide) (.inr rfl) (by simp [Parameter.takes]) h.host,
    read_option vars (by decide) (by decide) (.inr rfl) (by simp [Parameter.takes]) h.platform,
    read_option vars (by decide) (by decide) (.inr rfl)
      (fun _ => childDescriptor_ne_empty s host platform) h.output,
    Level.read, Level.close]
  simp only [Level.below, List.isEmpty_nil, Bool.not_true, Bool.false_eq_true, if_false, hfallbacks]
  rfl

/-- The whole line, with the settings' file before the command. -/
lemma read_childLine :
    Reading.ofWords vars (s.generateChildCommand host platform (s.childDescriptor host platform)).argv.tail =
      .ok ⟨.generate, ⟨s.source.toList.map (.config, ·) ++ [(.child, ""), (.host, host),
        (.platform, platform), (.output, s.childDescriptor host platform)], []⟩⟩ := by
  have hgenerate : Level.top.command? "generate" = some .generate := by decide
  have hpaths : ∀ p ∈ Level.top.options, p.takes = .path → p = .config := by decide
  have hfallbacks : ∀ given, Level.top.checkFallbacks vars given = .ok () := by
    intro given
    rw [checkFallbacks_eq_ok]
    intro p hp htakes _
    rw [hpaths p hp htakes]
    exact h.environment
  unfold Reading.ofWords generateChildCommand generatorCommand
  cases hsource : s.source with
  | none =>
    simp only [Command.withArgs, Command.ofArgv, List.cons_append, List.tail_cons, List.nil_append]
    rw [read_command (by decide) hgenerate]
    exact ⟨_, read_childOptions h, hfallbacks _, rfl⟩
  | some path =>
    obtain ⟨hne, hplain⟩ := h.source path hsource
    simp only [Command.withArgs, Command.ofArgv, List.cons_append, List.tail_cons, List.nil_append]
    rw [read_config]
    refine ⟨hne, hplain, ?_⟩
    rw [read_command (by decide) hgenerate]
    exact ⟨_, read_childOptions h, hfallbacks _, rfl⟩

/-- The line asks for the child of the host and the platform, from the same file of settings. -/
theorem ofWords_childLine :
    Invocation.ofWords vars
        (s.generateChildCommand host platform (s.childDescriptor host platform)).argv.tail =
      .ok ⟨s.source.or (Parameter.fallback? vars .config), .generate (childOptions s host platform)⟩ := by
  unfold Invocation.ofWords
  rw [read_childLine h]
  cases s.source with
  | none => rfl
  | some path => rfl

end Line

end CrossBuild.Proofs
