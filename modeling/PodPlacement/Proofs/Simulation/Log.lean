import Mathlib.Data.List.Perm.Subperm
import PodPlacement.Proofs.Placement.Trial
import PodPlacement.Simulation

/-! # Logs

A simulation tries pods one after the other. Its log holds every try with the cluster before and after
it.

* `Booking` — a pod with the placement it was given; the bookings of a log make up the schedule.
* `Attempt.Sound` — all that is known of a single try.
* `Chain` — tries that follow one another; `Chain.invariant`, the induction over them; `Chain.unique`, the
  pods and the cluster determine what comes of them.
* `pass_spec` — a pass always comes to a result, and its log says which. -/

namespace PodPlacement

variable {n : Nat}

/-! ### Bookings -/

/-- A placement together with the pod that was placed. -/
structure Booking (n : Nat) extends Placement n where
  /-- The pod. -/
  pod : Pod

/-- The record of a booking. -/
def Booking.record (nodes : Nodes n) (b : Booking n) : Record :=
  .ofPod b.pod nodes[b.node].name b.start b.finish

/-- Records depend on the names of the nodes only. -/
theorem Booking.record_congr {nodes nodes' : Nodes n}
    (h : ∀ j : Fin n, nodes'[j].name = nodes[j].name) :
    (record nodes' : Booking n → Record) = record nodes := by
  funext b
  rw [record, record, h]

/-- The schedule after some more bookings. -/
def Schedule.book (s : Schedule) (nodes : Nodes n) (bs : List (Booking n)) : Schedule :=
  ⟨s.records ++ bs.map (Booking.record nodes)⟩

/-- The records after some more bookings. -/
@[simp] theorem Schedule.records_book (s : Schedule) (nodes : Nodes n) (bs : List (Booking n)) :
    (s.book nodes bs).records = s.records ++ bs.map (Booking.record nodes) := rfl

/-- Without bookings a schedule stays as it is. -/
@[simp] theorem Schedule.book_nil (s : Schedule) (nodes : Nodes n) : s.book nodes [] = s := by
  rw [book, List.map_nil, List.append_nil]

/-- Bookings may be made in two parts. -/
theorem Schedule.book_append (s : Schedule) (nodes : Nodes n) (bs bs' : List (Booking n)) :
    s.book nodes (bs ++ bs') = (s.book nodes bs).book nodes bs' := by
  rw [book, book, book, List.map_append, List.append_assoc]

namespace Simulation

/-! ### Tries -/

/-- One try to place a pod. -/
structure Attempt (n : Nat) where
  /-- The clock during the try. -/
  clock : Seconds
  /-- The pod. -/
  pod : Pod
  /-- The cluster before the try. -/
  before : Cluster n
  /-- The cluster after the try. -/
  after : Cluster n
  /-- Where the pod was placed, if it was. -/
  placement? : Option (Placement n)

/-- The booking a try results in, if it results in one. -/
def Attempt.booking? (a : Attempt n) : Option (Booking n) := a.placement?.map fun p => ⟨p, a.pod⟩

/-- The bookings of some tries, in turn. -/
def bookings (log : List (Attempt n)) : List (Booking n) := log.filterMap Attempt.booking?

/-- Without tries there are no bookings. -/
@[simp] theorem bookings_nil : bookings ([] : List (Attempt n)) = [] := rfl

/-- A try without a placement adds no booking. -/
theorem bookings_cons_none {a : Attempt n} (h : a.placement? = none) (log : List (Attempt n)) :
    bookings (a :: log) = bookings log :=
  List.filterMap_cons_none (by rw [Attempt.booking?, h]; rfl)

/-- A try with a placement adds one booking. -/
theorem bookings_cons_some {a : Attempt n} {p : Placement n} (h : a.placement? = some p)
    (log : List (Attempt n)) : bookings (a :: log) = ⟨p, a.pod⟩ :: bookings log :=
  List.filterMap_cons_some (by rw [Attempt.booking?, h]; rfl)

/-- The bookings of two logs in turn. -/
@[simp] theorem bookings_append (log log' : List (Attempt n)) :
    bookings (log ++ log') = bookings log ++ bookings log' := List.filterMap_append

/-- A booking comes from a try. -/
theorem mem_bookings {log : List (Attempt n)} {b : Booking n} :
    b ∈ bookings log ↔ ∃ a ∈ log, a.placement? = some b.toPlacement ∧ a.pod = b.pod := by
  simp only [bookings, List.mem_filterMap, Attempt.booking?, Option.map_eq_some_iff]
  constructor
  · rintro ⟨a, ha, p, hp, rfl⟩
    exact ⟨a, ha, hp, rfl⟩
  · rintro ⟨a, ha, hp, hpod⟩
    exact ⟨a, ha, b.toPlacement, hp, by rw [hpod]⟩

/-- Tries without placements add no bookings. -/
theorem bookings_eq_nil {log : List (Attempt n)} :
    bookings log = [] ↔ ∀ a ∈ log, a.placement? = none := by
  simp [bookings, List.filterMap_eq_nil_iff, Attempt.booking?]

/-- The pods that are placed are among the pods that are tried, in the same order. -/
theorem pods_bookings_sublist (log : List (Attempt n)) :
    ((bookings log).map Booking.pod).Sublist (log.map Attempt.pod) := by
  induction log with
  | nil => exact .slnil
  | cons a log ih =>
    cases hp : a.placement? with
    | none =>
      rw [bookings_cons_none hp, List.map_cons]
      exact ih.cons a.pod
    | some p =>
      rw [bookings_cons_some hp, List.map_cons, List.map_cons]
      exact ih.cons_cons a.pod

/-- All that is known of a single try. -/
structure Attempt.Sound (policy : Policy) (active : List (Fin n)) (a : Attempt n) : Prop where
  /-- The cluster after the try and the placement are what placing the pod gives. -/
  placed : a.before.place policy.nodeChoice active a.pod a.clock = .ok (a.after, a.placement?)
  /-- The queue is complete and in order. -/
  queues : a.before.Queues active
  /-- There is a queue exactly if the policy anticipates. -/
  mode : a.before.queue?.isSome = policy.anticipates
  /-- The effect on the nodes. -/
  trial : Cluster.Trial active a.pod (a.before.offer a.pod a.clock) a.before.nodes a.after.nodes
    a.placement?
  /-- The clock is not before zero. -/
  nonneg : 0 ≤ a.clock
  /-- Only pods that were submitted are tried. -/
  submitted : a.pod.submit ≤ a.clock

/-- Tries that follow one another at one clock. -/
inductive Chain (policy : Policy) (active : List (Fin n)) (clock : Seconds) :
    Cluster n → List (Attempt n) → Cluster n → Prop where
  /-- No tries. -/
  | nil (cluster : Cluster n) : Chain policy active clock cluster [] cluster
  /-- A try and the ones after it. -/
  | cons {a : Attempt n} {log : List (Attempt n)} {cluster : Cluster n} (hclock : a.clock = clock)
    (hsound : a.Sound policy active) (hrest : Chain policy active clock a.after log cluster) :
    Chain policy active clock a.before (a :: log) cluster

namespace Chain

variable {policy : Policy} {active : List (Fin n)} {clock : Seconds} {cluster cluster' : Cluster n}
  {log : List (Attempt n)}

/-- Every try of a chain is sound and made at its clock. -/
theorem sound (h : Chain policy active clock cluster log cluster') :
    ∀ a ∈ log, a.Sound policy active ∧ a.clock = clock := by
  induction h with
  | nil => intro a ha; cases ha
  | cons hclock hsound _ ih => exact List.forall_mem_cons.2 ⟨⟨hsound, hclock⟩, ih⟩

/-- What every try preserves, a chain preserves. The property may depend on the tries made so far. -/
theorem invariant {P : List (Attempt n) → Cluster n → Prop}
    (h : Chain policy active clock cluster log cluster')
    (htry : ∀ done, ∀ a ∈ log, P done a.before → P (done ++ [a]) a.after) (done : List (Attempt n))
    (hinit : P done cluster) : P (done ++ log) cluster' := by
  induction h generalizing done with
  | nil => rwa [List.append_nil]
  | @cons a log cluster' hclock hsound hrest ih =>
    have hfirst := htry done a List.mem_cons_self hinit
    have hlast := ih (fun done b hb => htry done b (List.mem_cons_of_mem a hb)) (done ++ [a]) hfirst
    rwa [List.append_assoc] at hlast

/-- A chain can be parted between any two tries. -/
theorem split {log' : List (Attempt n)} (h : Chain policy active clock cluster (log ++ log') cluster') :
    ∃ c, Chain policy active clock cluster log c ∧ Chain policy active clock c log' cluster' := by
  induction log generalizing cluster with
  | nil => exact ⟨cluster, .nil cluster, h⟩
  | cons a log ih =>
    cases h with
    | cons hclock hsound hrest =>
      obtain ⟨c, hfirst, hlast⟩ := ih hrest
      exact ⟨c, .cons hclock hsound hfirst, hlast⟩

/-- The same pods, tried on the same cluster, fare alike. -/
theorem unique {c c' : Cluster n} {log' : List (Attempt n)}
    (h : Chain policy active clock cluster log c) (h' : Chain policy active clock cluster log' c')
    (hpods : log.map Attempt.pod = log'.map Attempt.pod) : log = log' ∧ c = c' := by
  induction h generalizing log' with
  | nil cluster =>
    cases h' with
    | nil => exact ⟨rfl, rfl⟩
    | cons => cases hpods
  | @cons a log c hclock hsound _ ih =>
    obtain ⟨clock', pod, before, after, placement?⟩ := a
    cases hclock
    -- The cluster before the first try is that of the other chain as well.
    generalize hstart : before = start at h'
    cases h' with
    | nil => cases hpods
    | @cons a' log' _ hclock' hsound' hrest' =>
      obtain ⟨clock', pod', before', after', placement?'⟩ := a'
      cases hclock'
      cases hstart
      obtain ⟨hpod, hrest⟩ := List.cons.inj hpods
      cases hpod
      have hsame := hsound.placed.symm.trans hsound'.placed
      cases hsame
      obtain ⟨hlog, hc⟩ := ih hrest' hrest
      exact ⟨by rw [hlog], hc⟩

/-- No node is renamed. -/
theorem name_eq (h : Chain policy active clock cluster log cluster') (j : Fin n) :
    cluster'.nodes[j].name = cluster.nodes[j].name := by
  induction h with
  | nil => rfl
  | cons _ hsound _ ih => rw [ih, hsound.trial.name_eq j]

end Chain

/-! ### Passes -/

section Pass

variable (policy : Policy) (active : List (Fin n)) (clock : Seconds)

/-- The tries of a pass over some pods, in turn. -/
def attempts : List Pod → Cluster n → List (Attempt n)
  | [], _ => []
  | pod :: pods, cluster =>
    match cluster.place policy.nodeChoice active pod clock with
    | .error _ => []
    | .ok (after, placement?) => ⟨clock, pod, cluster, after, placement?⟩ :: attempts pods after

variable {policy active clock} {pod : Pod} {pods : List Pod} {cluster after cluster' : Cluster n}
  {schedule schedule' : Schedule} {placed : List Nat} {p : Placement n}

/-- The first try of a pass. -/
theorem attempts_cons {placement? : Option (Placement n)}
    (h : cluster.place policy.nodeChoice active pod clock = .ok (after, placement?)) :
    attempts policy active clock (pod :: pods) cluster =
      ⟨clock, pod, cluster, after, placement?⟩ :: attempts policy active clock pods after := by
  rw [attempts, h]

/-- A pass goes on after a pod that is not placed. -/
theorem pass_cons_none (h : cluster.place policy.nodeChoice active pod clock = .ok (after, none)) :
    pass policy active clock (pod :: pods) cluster schedule =
      pass policy active clock pods after schedule := by
  rw [pass, h]
  rfl

/-- A pass goes on after a pod that is placed, and the record of the pod is added. -/
theorem pass_cons_some (h : cluster.place policy.nodeChoice active pod clock = .ok (after, some p))
    (hrest : pass policy active clock pods after
      (schedule.push (Record.ofPod pod after.nodes[p.node].name p.start p.finish)) =
        .ok (cluster', schedule', placed)) :
    pass policy active clock (pod :: pods) cluster schedule =
      .ok (cluster', schedule', pod.id :: placed) := by
  rw [pass, h]
  show (pass policy active clock pods after _ >>= _) = _
  rw [hrest]
  rfl

/-- A pass always comes to a result, and its log says which. -/
theorem pass_spec (hactive : active.Nodup) (hclock : 0 ≤ clock) (pods : List Pod)
    (hsubmit : ∀ pod ∈ pods, pod.submit ≤ clock) {cluster : Cluster n}
    (hqueues : cluster.Queues active) (hmode : cluster.queue?.isSome = policy.anticipates)
    (schedule : Schedule) : ∃ cluster',
      pass policy active clock pods cluster schedule = .ok (cluster',
          schedule.book cluster.nodes (bookings (attempts policy active clock pods cluster)),
          (bookings (attempts policy active clock pods cluster)).map fun b => b.pod.id) ∧
        Chain policy active clock cluster (attempts policy active clock pods cluster) cluster' ∧
        (attempts policy active clock pods cluster).map Attempt.pod = pods ∧
        cluster'.Queues active ∧ cluster'.queue?.isSome = policy.anticipates := by
  induction pods generalizing cluster schedule with
  | nil =>
    refine ⟨cluster, ?_, .nil cluster, rfl, hqueues, hmode⟩
    simp [pass, attempts, Schedule.book]
  | cons pod pods ih =>
    obtain ⟨hpod, hpods⟩ := List.forall_mem_cons.1 hsubmit
    obtain ⟨after, placement?, hplace, hsome, hqueues', htrial⟩ :=
      Cluster.place_spec policy.nodeChoice hactive hqueues pod clock
    have hsound : Attempt.Sound policy active ⟨clock, pod, cluster, after, placement?⟩ :=
      ⟨hplace, hqueues, hmode, htrial, hclock, hpod⟩
    have hnames : (Booking.record after.nodes : Booking n → Record) = Booking.record cluster.nodes :=
      Booking.record_congr htrial.name_eq
    rw [attempts_cons hplace]
    cases placement? with
    | none =>
      obtain ⟨cluster', hpass, hchain, hmap, hend⟩ := ih hpods hqueues' (hsome.trans hmode) schedule
      refine ⟨cluster', ?_, .cons rfl hsound hchain, by rw [List.map_cons, hmap], hend⟩
      rw [pass_cons_none hplace, hpass, bookings_cons_none rfl, Schedule.book, Schedule.book, hnames]
    | some p =>
      obtain ⟨cluster', hpass, hchain, hmap, hend⟩ := ih hpods hqueues' (hsome.trans hmode)
        (schedule.push (Record.ofPod pod after.nodes[p.node].name p.start p.finish))
      refine ⟨cluster', ?_, .cons rfl hsound hchain, by rw [List.map_cons, hmap], hend⟩
      rw [pass_cons_some hplace hpass, bookings_cons_some rfl]
      have hrecord : Record.ofPod pod after.nodes[p.node].name p.start p.finish =
          Booking.record cluster.nodes ⟨p, pod⟩ := congrFun hnames ⟨p, pod⟩
      simp only [Schedule.book, Schedule.push, hnames, hrecord, List.map_cons, List.append_assoc,
        List.singleton_append]

end Pass

end Simulation

end PodPlacement
