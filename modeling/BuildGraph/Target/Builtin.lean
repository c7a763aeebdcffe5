import BuildGraph.Description

/-!
# Built-in rules

Every kind of target but one comes with a rule, registered when the first target of the kind is
met.  A rule of the description with the same name takes its place without notice.
-/

namespace BuildGraph.Target.Kind

/-- The script that minifies one file. -/
def minifier : Template := .below .inputDir "/toolchain/minify-any.sh"

/-- The script that packs an archive. -/
def archiver : Template := .below .inputDir "/toolchain/zip-abs.sh"

/-- The rule that comes with a kind of target. -/
def builtin? : Kind → Option RuleTemplate
  | .copy => some {
      name := "copy"
      commands := [[.ofKeyword .copyCommand, .literal "$in", .literal "$out"]]
      description := some (.literal "Copying $in") }
  | .cpp => some cppRule
  | .cpps => some cppRule
  | .magick => some {
      name := "magick"
      commands := [[.ofKeyword .magickCommand, .literal "$in", .literal "$args", .literal "$out"]]
      description := some (.literal "Magicking $out") }
  | .rsvgConvert => some {
      name := "rsvg-convert"
      commands := [[.ofKeyword .rsvgConvertCommand, .literal "$args", .literal "$in",
        .literal "-o", .literal "$out"]]
      description := some (.literal "Rasterizing $out") }
  | .minify => some {
      name := "minify"
      commands := [[.ofKeyword .bashCommand, minifier, .literal "$in", .literal "$out"]]
      description := some (.literal "Minifying $in") }
  | .zip => some {
      name := "zip"
      commands := [[.ofKeyword .bashCommand, archiver, .literal "$out", .literal "$indir",
        .literal "$in"]]
      description := some (.literal "Zipping $out") }
  | .regen => some {
      name := "regen"
      commands := [
        [.literal "cd", .ofKeyword .inputDir],
        [.ofKeyword .ownCommand, .literal "genin", .literal "$in", .literal ">",
          .literal "$out"]]
      description := some (.literal "Regenerate build.ninja")
      generator := true
      restat := true }
  | .rsync => some {
      name := "rsync"
      commands := [
        [.ofKeyword .ownCommand, .literal "rsync", .literal "$srcDir", .literal "$dstDir",
          .literal "$inputs"],
        [.ofKeyword .touchCommand, .literal "$out"]]
      description := some (.literal "Deploying") }
  | .core => none
where
  /-- The rule of both kinds of preprocessing. -/
  cppRule : RuleTemplate := {
    name := "cpp"
    commands := [[.ofKeyword .clangCommand, .literal "-x", .literal "c", .literal "$in",
      .literal "-E", .literal "-P", .literal "$defines", .literal "-MMD", .literal "-MF",
      .literal "$depfile", .literal "-MT", .literal "$outfile", .literal "-o",
      .literal "$outfile"]]
    description := some (.literal "CPP $in") }

/-- The built-in rule of a kind has the name that its edges use. -/
theorem name_of_builtin? {k : Kind} {r : RuleTemplate} (h : k.builtin? = some r) :
    k.rule? = some r.name := by
  cases k <;> simp only [builtin?, Option.some.injEq, reduceCtorEq] at h <;> subst h <;> rfl

/-- Registers the built-in rule of a kind unless its name is taken. -/
def registerBuiltin (k : Kind) : Build Unit := do
  match k.rule? with
  | none => pure ()
  | some name =>
    if (← get).knows name then pure ()
    else match k.builtin? with
      | none => pure ()
      | some r => r.register

end BuildGraph.Target.Kind
