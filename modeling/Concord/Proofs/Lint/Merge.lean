import Concord.Lint.Config
import Concord.Proofs.Map.Layers
import Concord.Proofs.Map.Ordered
import Concord.Proofs.Rule.Layering

/-!
# Layering configurations

Merging settings, and configurations with their override blocks, is associative: each field has its
own way of merging, and each of them is. A configuration may thus be put together from layers in any
grouping. Settings without override blocks may moreover stand twice (`LintConfig.merge_self`). The
default configuration is neutral as the upper of two layers. As the lower one it is not where plugins
are repeated within the other layer, since merging onto it drops the repeats.
-/

namespace Concord

namespace LintSettings

/-- Settings without override blocks. -/
def alone (s : LintSettings) : LintConfig := { s with }

/-- Under a rule's name the upper entry is found, merged onto the lower one if there is one. -/
theorem find?_rules_merge (lower upper : LintSettings) (name : String) :
    (lower.merge upper).rules.find? name =
      ((upper.rules.find? name).map
        (SortedMap.combined RuleEntry.mergedOnto (lower.rules.find? name))).or
        (lower.rules.find? name) :=
  SortedMap.find?_overlayWith _ _ _ name

/-- Settings may be layered in any grouping. -/
theorem merge_assoc (lower middle upper : LintSettings) :
    (lower.merge middle).merge upper = lower.merge (middle.merge upper) := by
  simp only [merge, LintSettings.mk.injEq]
  refine ⟨?_, ?_, ?_, ?_, ?_, ?_, ?_, ?_, ?_⟩
  · exact Bool.or_assoc ..
  · exact SortedMap.overlayWith_assoc RuleEntry.mergedOnto_assoc _ _ _
  · exact OrderedMap.overlay_assoc ..
  · exact SortedMap.overlay_assoc ..
  · exact SortedMap.overlay_assoc ..
  · exact (collect_assoc ..).symm
  · exact (Option.or_assoc ..).symm
  · exact OrderedMap.overlay_assoc ..
  · exact (Option.or_assoc ..).symm

/-- Settings that stand twice count as if they stood once. -/
theorem merge_self (s : LintSettings) : s.merge s = s := by
  obtain ⟨root, rules, settings, globals, env, plugins, parser, parserOptions, extensions⟩ := s
  simp only [merge, LintSettings.mk.injEq]
  refine ⟨?_, ?_, ?_, ?_, ?_, ?_, ?_, ?_, ?_⟩
  · exact Bool.or_self root
  · exact SortedMap.overlayWith_self RuleEntry.mergedOnto_self rules
  · exact OrderedMap.overlay_self settings
  · exact SortedMap.overlay_self globals
  · exact SortedMap.overlay_self env
  · exact collect_self plugins
  · exact Option.or_self
  · exact OrderedMap.overlay_self parserOptions
  · exact Option.or_self

/-- The default settings say nothing that could be laid over others. -/
theorem merge_default (s : LintSettings) : s.merge {} = s := by
  obtain ⟨root, rules, settings, globals, env, plugins, parser, parserOptions, extensions⟩ := s
  simp only [merge, LintSettings.mk.injEq]
  refine ⟨?_, ?_, ?_, ?_, ?_, ?_, ?_, ?_, ?_⟩
  · exact Bool.or_false root
  · exact SortedMap.overlayWith_empty RuleEntry.mergedOnto rules
  · exact OrderedMap.overlay_empty settings
  · exact SortedMap.overlay_empty globals
  · exact SortedMap.overlay_empty env
  · exact collect_nil plugins
  · exact Option.none_or
  · exact OrderedMap.overlay_empty parserOptions
  · exact Option.none_or

/-- Settings laid over the default ones lose what is repeated among their plugins. -/
theorem default_merge (s : LintSettings) :
    merge {} s = { s with plugins := s.plugins.eraseDups } := by
  obtain ⟨root, rules, settings, globals, env, plugins, parser, parserOptions, extensions⟩ := s
  simp only [merge, LintSettings.mk.injEq]
  refine ⟨?_, ?_, ?_, ?_, ?_, ?_, ?_, ?_, ?_⟩
  · exact Bool.false_or root
  · exact SortedMap.empty_overlayWith RuleEntry.mergedOnto rules
  · exact OrderedMap.empty_overlay settings
  · exact SortedMap.empty_overlay globals
  · exact SortedMap.empty_overlay env
  · exact collect_nil_left plugins
  · exact Option.or_none
  · exact OrderedMap.empty_overlay parserOptions
  · exact Option.or_none

end LintSettings

namespace LintConfig

/-- Configurations may be layered in any grouping. -/
theorem merge_assoc (lower middle upper : LintConfig) :
    (lower.merge middle).merge upper = lower.merge (middle.merge upper) := by
  simp only [merge, LintConfig.mk.injEq]
  exact ⟨LintSettings.merge_assoc .., List.append_assoc ..⟩

instance : Std.Associative merge := ⟨merge_assoc⟩

/-- Layers merged onto a configuration that is itself merged onto another. -/
theorem foldl_merge (lower start : LintConfig) (layers : List LintConfig) :
    layers.foldl merge (lower.merge start) = lower.merge (layers.foldl merge start) :=
  List.foldl_assoc

/-- Merging the default configuration over another leaves that one as it is. -/
theorem merge_default (c : LintConfig) : c.merge {} = c := by
  obtain ⟨settings, overrides⟩ := c
  simp only [merge, LintConfig.mk.injEq]
  exact ⟨settings.merge_default, List.append_nil overrides⟩

/-- A configuration that is merged over the default one loses what is repeated among its plugins. -/
theorem default_merge (c : LintConfig) :
    merge {} c = { c with plugins := c.plugins.eraseDups } := by
  obtain ⟨settings, overrides⟩ := c
  simp only [merge, LintConfig.mk.injEq]
  exact ⟨settings.default_merge, List.nil_append overrides⟩

theorem default_merge_eq_self_iff {c : LintConfig} : merge {} c = c ↔ c.plugins.Nodup := by
  rw [default_merge, ← eraseDups_eq_self_iff]
  constructor
  · intro h
    exact congrArg (fun config => config.plugins) h
  · intro h
    rw [h]

/-- Without override blocks a configuration that stands twice counts as if it stood once. -/
theorem merge_self {c : LintConfig} (h : c.overrides = []) : c.merge c = c := by
  obtain ⟨settings, overrides⟩ := c
  subst h
  simp only [merge, LintConfig.mk.injEq]
  exact ⟨settings.merge_self, rfl⟩

/-- Layers may first be merged among themselves. -/
theorem foldl_merge_eq_merge (layers : List LintConfig) (start : LintConfig) :
    layers.foldl merge start = start.merge (mergeAll layers) := by
  have hstart := foldl_merge start {} layers
  rw [merge_default] at hstart
  exact hstart

/-- Merging is associative, field by field and with the order of plugins, of the keys of maps and of
override blocks. The default configuration is neutral as the upper layer. As the lower one it drops
repeated plugins and changes nothing else, so that it is neutral exactly for configurations without
repeated plugins. -/
theorem merge_assoc_and_default :
    (∀ lower middle upper : LintConfig,
      (lower.merge middle).merge upper = lower.merge (middle.merge upper)) ∧
    (∀ c : LintConfig, c.merge {} = c) ∧
    (∀ c : LintConfig, merge {} c = { c with plugins := c.plugins.eraseDups }) ∧
    ∀ c : LintConfig, merge {} c = c ↔ c.plugins.Nodup :=
  ⟨merge_assoc, merge_default, default_merge, fun _ => default_merge_eq_self_iff⟩

end LintConfig

end Concord
