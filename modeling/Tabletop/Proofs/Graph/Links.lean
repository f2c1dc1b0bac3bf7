import Mathlib.Data.List.Nodup
import Mathlib.Data.List.Pairwise
import Tabletop.Graph.Flat

/-! The ids and the links of the records of a flat graph. Both are read from the front, up to the
first record that is at fault: one with the id of an earlier one, one that names no known parent,
or one in a place that is taken. -/

namespace Tabletop.FlatGraph

/-- The links of records that can hang from one another: every parent is among the `ids`, and no two
records are in one place. -/
structure Linked (ids : List String) (nodes : List FlatNode) : Prop where
  parents : ∀ n ∈ nodes, ∀ link, n.link = some link → link.parent ∈ ids
  apart : nodes.Pairwise fun m n => ∀ link, m.link = some link → n.link ≠ some link

/-- What is wrong with the link of a record that comes after those in `earlier`. -/
inductive Offends (ids : List String) (earlier : List FlatNode) (n : FlatNode) :
    GraphError → Prop where
  | unknown {link : ParentLink} : n.link = some link → link.parent ∉ ids →
    Offends ids earlier n (.unknownParent n.id link.parent)
  | taken {link : ParentLink} {first : FlatNode} : n.link = some link → link.parent ∈ ids →
    first ∈ earlier → first.link = some link →
    Offends ids earlier n (.slotConflict link.parent link.slotName first.id n.id)

/-! ### Ids -/

theorem repeatedId?_eq_none {seen : List String} {nodes : List FlatNode} :
    repeatedId? seen nodes = none ↔ (nodes.map (·.id)).Nodup ∧ ∀ n ∈ nodes, n.id ∉ seen := by
  induction nodes generalizing seen with
  | nil => simp [repeatedId?]
  | cons n rest ih =>
    simp only [repeatedId?, List.contains_iff_mem]
    split
    · next h => simp [h]
    · next h =>
      rw [ih]
      simp only [List.mem_cons, not_or, List.map_cons, List.nodup_cons, List.mem_map, not_exists,
        not_and, forall_eq_or_imp]
      constructor
      · rintro ⟨hrest, hnew⟩
        exact ⟨⟨fun m hm => (hnew m hm).1, hrest⟩, h, fun m hm => (hnew m hm).2⟩
      · rintro ⟨⟨hn, hrest⟩, -, hseen⟩
        exact ⟨hrest, fun m hm => ⟨hn m hm, hseen m hm⟩⟩

theorem repeatedId?_eq_some {seen : List String} {nodes : List FlatNode} {id : String} :
    repeatedId? seen nodes = some id ↔ ∃ earlier n later, nodes = earlier ++ n :: later ∧
      n.id = id ∧ (id ∈ seen ∨ id ∈ earlier.map (·.id)) ∧ repeatedId? seen earlier = none := by
  induction nodes generalizing seen with
  | nil => simp [repeatedId?]
  | cons m rest ih =>
    by_cases h : m.id ∈ seen
    · have hm : repeatedId? seen (m :: rest) = some m.id := by simp [repeatedId?, h]
      rw [hm]
      constructor
      · rintro ⟨⟩
        exact ⟨[], m, rest, rfl, rfl, .inl h, rfl⟩
      · rintro ⟨_ | ⟨m', earlier⟩, n, later, heq, rfl, -, hfirst⟩ <;> cases heq
        · rfl
        · simp [repeatedId?, h] at hfirst
    · have hstep (l : List FlatNode) : repeatedId? seen (m :: l) = repeatedId? (m.id :: seen) l := by
        simp [repeatedId?, h]
      rw [hstep, ih]
      constructor
      · rintro ⟨earlier, n, later, rfl, rfl, hid, hfirst⟩
        refine ⟨m :: earlier, n, later, rfl, rfl, ?_, (hstep earlier).trans hfirst⟩
        rw [List.mem_cons, or_right_comm] at hid
        simpa [or_comm, or_assoc, or_left_comm] using hid
      · rintro ⟨_ | ⟨m', earlier⟩, n, later, heq, rfl, hid, hfirst⟩ <;> cases heq
        · exact absurd (by simpa using hid) h
        · refine ⟨earlier, n, later, rfl, rfl, ?_, (hstep earlier).symm.trans hfirst⟩
          simpa [or_comm, or_assoc, or_left_comm] using hid

/-! ### Links -/

section

variable {ids : List String} {earlier nodes : List FlatNode} {n : FlatNode} {e : GraphError}

/-- A record fits after others that fit unless its link offends. -/
theorem linked_concat :
    Linked ids (earlier ++ [n]) ↔ Linked ids earlier ∧ ∀ e, ¬Offends ids earlier n e := by
  constructor
  · rintro ⟨hparents, hapart⟩
    obtain ⟨hearlier, -, hlast⟩ := List.pairwise_append.mp hapart
    refine ⟨⟨fun m hm => hparents m (by simp [hm]), hearlier⟩, ?_⟩
    rintro e (⟨hlink, hnot⟩ | ⟨hlink, -, hfirst, htaken⟩)
    · exact hnot (hparents n (by simp) _ hlink)
    · exact hlast _ hfirst n (by simp) _ htaken hlink
  · rintro ⟨⟨hparents, hapart⟩, hgood⟩
    have hknown (link : ParentLink) (hlink : n.link = some link) : link.parent ∈ ids := by
      by_contra h
      exact hgood _ (.unknown hlink h)
    refine ⟨fun m hm link hlink => ?_, ?_⟩
    · rcases List.mem_append.mp hm with hm | hm
      · exact hparents m hm link hlink
      · rw [List.mem_singleton.mp hm] at hlink
        exact hknown link hlink
    · refine List.pairwise_append.mpr ⟨hapart, by simp, fun m hm n' hn' link hm' hlink => ?_⟩
      rw [List.mem_singleton.mp hn'] at hlink
      exact hgood _ (.taken hlink (hknown link hlink) hm hm')

theorem Linked.of_append {later : List FlatNode} (h : Linked ids (earlier ++ later)) :
    Linked ids earlier where
  parents m hm := h.parents m (by simp [hm])
  apart := (List.pairwise_append.mp h.apart).1

/-- Among records that fit, one place belongs to one record. -/
theorem Linked.eq_of_link (h : Linked ids nodes) {m n : FlatNode} (hm : m ∈ nodes) (hn : n ∈ nodes)
    {link : ParentLink} (hml : m.link = some link) (hnl : n.link = some link) : m = n := by
  by_contra hne
  have hsymm : Std.Symm fun m n : FlatNode => ∀ link, m.link = some link → n.link ≠ some link :=
    ⟨fun m n hmn link hn hm => hmn link hm hn⟩
  exact h.apart.forall hm hn hne link hml hnl

theorem Linked.eq_of_offends (h : Linked ids earlier) {e' : GraphError}
    (he : Offends ids earlier n e) (he' : Offends ids earlier n e') : e = e' := by
  rcases he with ⟨hlink, hnot⟩ | ⟨hlink, hin, hfirst, htaken⟩ <;>
    rcases he' with ⟨hlink', hnot'⟩ | ⟨hlink', hin', hfirst', htaken'⟩ <;>
    cases hlink.symm.trans hlink'
  · rfl
  · exact absurd hin' hnot
  · exact absurd hin hnot'
  · rw [h.eq_of_link hfirst hfirst' htaken htaken']

/-- Reading links stops at a record that offends, and passes any other. -/
theorem badLink?_cons (ids : List String) (earlier : List FlatNode) (n : FlatNode)
    (rest : List FlatNode) :
    (∃ e, Offends ids earlier n e ∧ badLink? ids earlier (n :: rest) = some e) ∨
      (∀ e, ¬Offends ids earlier n e) ∧
        badLink? ids earlier (n :: rest) = badLink? ids (earlier ++ [n]) rest := by
  cases hlink : n.link with
  | none =>
    refine .inr ⟨?_, by simp [badLink?, hlink]⟩
    rintro e (⟨h, -⟩ | ⟨h, -⟩) <;> rw [hlink] at h <;> cases h
  | some link =>
    by_cases hin : link.parent ∈ ids
    · cases hfirst : earlier.find? (·.link == some link) with
      | some first =>
        have htaken : first.link = some link := by simpa using List.find?_some hfirst
        exact .inl ⟨_, .taken hlink hin (List.mem_of_find?_eq_some hfirst) htaken,
          by simp [badLink?, hlink, hin, hfirst]⟩
      | none =>
        refine .inr ⟨?_, by simp [badLink?, hlink, hin, hfirst]⟩
        rintro e (⟨h, hnot⟩ | ⟨h, -, hmem, htaken⟩) <;> cases hlink.symm.trans h
        · exact hnot hin
        · exact absurd htaken (by simpa using List.find?_eq_none.mp hfirst _ hmem)
    · exact .inl ⟨_, .unknown hlink hin, by simp [badLink?, hlink, hin]⟩

theorem badLink?_eq_none (h : Linked ids earlier) :
    badLink? ids earlier nodes = none ↔ Linked ids (earlier ++ nodes) := by
  induction nodes generalizing earlier with
  | nil => simpa [badLink?] using h
  | cons n rest ih =>
    have hsplit : earlier ++ n :: rest = (earlier ++ [n]) ++ rest := by simp
    obtain ⟨e, he, hstop⟩ | ⟨hgood, hpass⟩ := badLink?_cons ids earlier n rest
    · rw [hstop, hsplit]
      refine ⟨fun h => (nomatch h), fun hl => ?_⟩
      exact absurd he ((linked_concat.mp hl.of_append).2 e)
    · rw [hpass, ih (linked_concat.mpr ⟨h, hgood⟩), hsplit]

theorem badLink?_eq_some (h : Linked ids earlier) :
    badLink? ids earlier nodes = some e ↔ ∃ more n later, nodes = more ++ n :: later ∧
      Linked ids (earlier ++ more) ∧ Offends ids (earlier ++ more) n e := by
  induction nodes generalizing earlier with
  | nil => simp [badLink?]
  | cons m rest ih =>
    have hsplit (more : List FlatNode) : earlier ++ m :: more = (earlier ++ [m]) ++ more := by simp
    obtain ⟨e', he', hstop⟩ | ⟨hgood, hpass⟩ := badLink?_cons ids earlier m rest
    · rw [hstop]
      constructor
      · rintro ⟨⟩
        exact ⟨[], m, rest, rfl, by simpa using h, by simpa using he'⟩
      · rintro ⟨_ | ⟨m', more⟩, n, later, heq, hl, he⟩ <;> cases heq
        · rw [h.eq_of_offends he' (by simpa using he)]
        · rw [hsplit] at hl
          exact absurd he' ((linked_concat.mp hl.of_append).2 e')
    · rw [hpass, ih (linked_concat.mpr ⟨h, hgood⟩)]
      constructor
      · rintro ⟨more, n, later, rfl, hl, he⟩
        exact ⟨m :: more, n, later, rfl, hsplit more ▸ hl, hsplit more ▸ he⟩
      · rintro ⟨_ | ⟨m', more⟩, n, later, heq, hl, he⟩ <;> cases heq
        · exact absurd (by simpa using he) (hgood e)
        · exact ⟨more, n, later, rfl, hsplit more ▸ hl, hsplit more ▸ he⟩

end

end Tabletop.FlatGraph
