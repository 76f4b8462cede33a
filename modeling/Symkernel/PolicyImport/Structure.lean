import Symkernel.PolicyImport.CedarPolicy
import Symkernel.PolicyImport.RegoStructure

/-!
# The structure of the emitted texts
-/

namespace Symkernel.PolicyImport

open Library Library.Cel

theorem emitted_text_read_as_source_iff (isPrint : Char → Bool) (isBuiltin : String → Bool) :
    (∀ (p : Cedar.Policy) (res : Result), Cedar.translateCedar isPrint [p] = .ok res →
      (parse res.cel = some (Cedar.policyTree isPrint p) ↔ Cedar.faithful p = true)) ∧
    (∀ (b : List Rego.Expr) (s : String), Rego.body isPrint isBuiltin b = .ok s →
      (parse s = some (Rego.bodyTree isPrint Rego.numberTree b) ↔
        Rego.bodyOk Rego.numeralOk isSelector b = true)) ∧
    (∀ (rules : List Rego.Rule) (ruleName : String) (res : Result),
      Rego.translateRego isPrint isBuiltin (some rules) ruleName = .ok res → (parse res.cel =
          some (Rego.rulesTree isPrint Rego.numberTree (Rego.decisionName ruleName) rules) ↔
        Rego.rulesOk Rego.numeralOk isSelector (Rego.decisionName ruleName) rules = true)) := by
  refine ⟨?_, fun b s h => Rego.body_parse_iff h,
    fun rules ruleName res h => Rego.translateRego_parse_iff h⟩
  intro p res h
  obtain ⟨text, htext, h⟩ := bind_eq_ok.mp h
  cases h
  exact Cedar.policy_parse_iff htext

/-- `permit (principal, action, resource) when { context.ready }`. -/
def readyPolicy : Cedar.Policy :=
  { effect := .permit, principal := .all, action := .all, resource := .all
    conditions := [⟨.when, .access (.variable .context) "ready"⟩] }

def readyBody : List Rego.Expr :=
  [⟨0, false, .term (.ref [.var "input", .string "ready"])⟩]

def allowRule (b : List Rego.Expr) : Rego.Rule :=
  { head := some ⟨"allow", 0, false, some (.boolean true)⟩, isDefault := false, hasElse := false
    body := b }

theorem emitted_text_ready :
    parse "(context.ready)" = some (Cedar.policyTree (fun _ => true) readyPolicy) ∧
    parse "(input.ready)" = some (Rego.bodyTree (fun _ => true) Rego.numberTree readyBody) ∧
    parse "((input.ready))" =
      some (Rego.rulesTree (fun _ => true) Rego.numberTree "allow" [allowRule readyBody]) := by
  obtain ⟨hcedar, hbody, hrego⟩ := emitted_text_read_as_source_iff (fun _ => true) (fun _ => false)
  exact ⟨(hcedar readyPolicy ⟨"(context.ready)", .permit, "cedar"⟩ rfl).mpr (by decide),
    (hbody readyBody "(input.ready)" rfl).mpr (by decide),
    (hrego [allowRule readyBody] "" ⟨"((input.ready))", .permit, "rego"⟩ rfl).mpr (by decide)⟩

/-- `when { context["a || true"] }`: the attribute becomes an operator and a literal. -/
def splicedPolicy : Cedar.Policy :=
  { readyPolicy with conditions := [⟨.when, .access (.variable .context) "a || true"⟩] }

/-- `when { (!context).ready }`: the negation moves to the outside. -/
def regroupedPolicy : Cedar.Policy :=
  { readyPolicy with conditions := [⟨.when, .access (.not (.variable .context)) "ready"⟩] }

def splicedBody : List Rego.Expr :=
  [⟨0, false, .term (.ref [.var "input", .string "a || true"])⟩]

theorem emitted_text_not_read_as_source :
    (Cedar.policy (fun _ => true) splicedPolicy = .ok "(context.a || true)" ∧
      parse "(context.a || true)" =
        some (.bin .or (.select (.ident "context") "a") (.lit (.bool true))) ∧
      Cedar.policyTree (fun _ => true) splicedPolicy = .select (.ident "context") "a || true") ∧
    (Cedar.policy (fun _ => true) regroupedPolicy = .ok "(!(context).ready)" ∧
      parse "(!(context).ready)" = some (.not (.select (.ident "context") "ready")) ∧
      Cedar.policyTree (fun _ => true) regroupedPolicy =
        .select (.not (.ident "context")) "ready") ∧
    (Rego.body (fun _ => true) (fun _ => false) splicedBody = .ok "(input.a || true)" ∧
      parse "(input.a || true)" =
        some (.bin .or (.select (.ident "input") "a") (.lit (.bool true))) ∧
      Rego.bodyTree (fun _ => true) Rego.numberTree splicedBody =
        .select (.ident "input") "a || true") :=
  ⟨⟨rfl, rfl, rfl⟩, ⟨rfl, rfl, rfl⟩, ⟨rfl, rfl, rfl⟩⟩

end Symkernel.PolicyImport
