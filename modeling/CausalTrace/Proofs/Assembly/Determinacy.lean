import CausalTrace.Proofs.Assembly.Outline
import CausalTrace.Proofs.Assembly.Unfolding
import CausalTrace.Proofs.Outcome

/-!
# A header has one tree or none

What a tree should be is described by relations.  Each of them gives one result: a trace has one
root or one reason why it has none, a link leads to one place, a place shows one thing.  So a
header has at most one tree, and it has none if a failure is met on the way to it.

## Main definitions

* `Reference.lead` — where a link leads to, computed

## Main statements

* `Reference.Leads.unique`, `Reference.shows_unique` — one result and no more, as for
  `Reference.Enters.unique` and `Reference.Hanging.unique` of the layouts
* `Reference.Denotes.unique` — a header has at most one tree
* `Reference.Meets.not_denotes`, `Reference.Fails.not_yields` — a header that fails has none
-/

namespace CausalTrace

/-! ### One result and no more -/

namespace Reference

section

variable {answers : TraceId → Except Failure Trace} {options : Options}

/-- Where a link leads to, computed. -/
def lead (answers : TraceId → Except Failure Trace) (options : Options) (p : Place)
    (target : TraceId) : Except Failure (List Place) :=
  if target ∈ p.chain then .error (.linkCycle target p.chain)
  else if options.maxLinkDepth ≤ p.depth then .ok []
  else
    match answers target with
    | .error (.traceNotFound _) => .ok []
    | .error e => .error e
    | .ok t => (Layout.ofTrace t none options.orphans).map fun l =>
        [⟨t, none, p.depth + 1, p.chain ++ [target], l.root⟩]

/-- Where a link leads to is what is computed. -/
theorem Leads.eq {p : Place} {target : TraceId} {r : Except Failure (List Place)}
    (h : Leads answers options p target r) : lead answers options p target = r := by
  unfold lead
  cases h with
  | cycle hc => rw [if_pos hc]
  | tooDeep hc hd => rw [if_neg hc, if_pos hd]
  | missing hc hd ha => rw [if_neg hc, if_neg (Nat.not_le.mpr hd), ha]
  | unanswered hc hd ha he =>
      rw [if_neg hc, if_neg (Nat.not_le.mpr hd), ha]
      split
      · next id heq =>
          cases heq
          exact absurd rfl (he id)
      · next heq =>
          cases heq
          rfl
      · next heq => cases heq
  | refused hc hd ha he =>
      rw [if_neg hc, if_neg (Nat.not_le.mpr hd), ha]
      simp only [enters_error_iff.mp he]
      rfl
  | entered hc hd ha hr =>
      obtain ⟨l, hl, rfl⟩ := enters_ok_iff.mp hr
      rw [if_neg hc, if_neg (Nat.not_le.mpr hd), ha]
      simp only [hl]
      rfl

/-- A link leads to one place, or to one failure. -/
theorem Leads.unique {p : Place} {target : TraceId} {r r' : Except Failure (List Place)}
    (h : Leads answers options p target r) (h' : Leads answers options p target r') : r = r' :=
  h.eq.symm.trans h'.eq

/-- A place shows one segment, and one list of places below. -/
theorem shows_unique (p : Place) (s s' : Segment) (places places' : List Place)
    (h : Shows answers options p s places) (h' : Shows answers options p s' places') :
    s = s' ∧ places = places' := by
  obtain ⟨rfl, below, linked, hbelow, hlinked, rfl⟩ := h
  obtain ⟨rfl, below', linked', hbelow', hlinked', rfl⟩ := h'
  obtain rfl := hbelow.unique hbelow'
  have hsame : linked = linked' :=
    List.right_unique_forall₂' (fun _ _ _ hl hl' => Except.ok.inj (hl.unique hl')) hlinked hlinked'
  rw [hsame]
  exact ⟨rfl, rfl⟩

/-- A header has at most one tree. -/
theorem Denotes.unique {header : Header} {f g : Forest} (hf : Denotes answers options header f)
    (hg : Denotes answers options header g) : f = g := by
  obtain ⟨source, root, hsource, hroot, hf⟩ := hf
  obtain ⟨source', root', hsource', hroot', hg⟩ := hg
  cases hsource.symm.trans hsource'
  cases hroot.unique hroot'
  exact hf.unique shows_unique hg

/-! ### Failures stand in the way of trees -/

/-- If a forest grows from a place, one grows from each place directly below. -/
theorem Steps.grows {p q : Place} (h : Steps answers options p q)
    (hp : ∃ f, Grows (Shows answers options) [p] f) :
    ∃ g, Grows (Shows answers options) [q] g := by
  obtain ⟨f, hf⟩ := hp
  cases hf with
  | cons hshows hbelow _ =>
      refine hbelow.of_mem ?_
      obtain ⟨-, below, linked, hhanging, hlinked, rfl⟩ := hshows
      cases h with
      | hangs hhanging' hc =>
          obtain rfl := hhanging.unique hhanging'
          exact List.mem_append_left _ (List.mem_map_of_mem hc)
      | leads htarget hleads =>
          obtain ⟨entered, hentered, hleads'⟩ := exists_of_mem_forall₂ hlinked htarget
          cases hleads.unique hleads'
          exact List.mem_append_right _ (List.mem_flatten_of_mem hentered List.mem_cons_self)

/-- No forest grows from a place from which one comes to a failure. -/
theorem Blocked.not_grows {p : Place} {e : Failure} (h : Blocked answers options p e) :
    ¬ ∃ f, Grows (Shows answers options) [p] f := by
  obtain ⟨q, target, hreach, htarget, hfails⟩ := h
  intro hp
  -- from every place on the way to the link a forest grows, so that the link leads somewhere
  have hq : ∀ {r}, Relation.ReflTransGen (Steps answers options) p r →
      ∃ g, Grows (Shows answers options) [r] g := by
    intro r hr
    induction hr with
    | refl => exact hp
    | tail _ hstep ih => exact hstep.grows ih
  obtain ⟨g, hg⟩ := hq hreach
  cases hg with
  | cons hshows _ _ =>
      obtain ⟨-, below, linked, -, hlinked, -⟩ := hshows
      obtain ⟨entered, -, hleads⟩ := exists_of_mem_forall₂ hlinked htarget
      cases hfails.unique hleads

/-- A header on whose way a failure is met has no tree. -/
theorem Meets.not_denotes {header : Header} {e : Failure} {f : Forest}
    (h : Meets answers options header e) : ¬ Denotes answers options header f := by
  rintro ⟨source, root, hsource, hroot, hf⟩
  cases h with
  | unanswered hfails => cases hfails.symm.trans hsource
  | refused hsource' hfails =>
      cases hsource'.symm.trans hsource
      cases hfails.unique hroot
  | blocked hsource' hroot' hblocked =>
      cases hsource'.symm.trans hsource
      cases hroot'.unique hroot
      exact hblocked.not_grows ⟨f, hf⟩

/-- A header that fails yields nothing. -/
theorem Fails.not_yields {header : Header} {e : Failure} {f : Forest}
    (h : Fails answers options header e) : ¬ Yields answers options header f := by
  rintro ⟨hdenotes, hleaves⟩
  cases h with
  | met hmeets => exact hmeets.not_denotes hdenotes
  | leafOpen hallow hdenotes' hfind =>
      obtain rfl := hdenotes.unique hdenotes'
      have hopen := List.find?_some hfind
      rcases hleaves with hallow' | hclosed
      · exact Bool.false_ne_true (hallow.symm.trans hallow')
      · exact Bool.false_ne_true ((hclosed _ (List.mem_of_find?_eq_some hfind)).symm.trans hopen)

end

end Reference

end CausalTrace
