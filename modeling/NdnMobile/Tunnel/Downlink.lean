import NdnMobile.Lib.Channel
import NdnMobile.Tunnel.Model

/-!
# The tunnel's downlink

The consumer half of `spawn_tunnel`: the task that subscribes to the peer's prefix, hands
the content of each Data to the bounded delivery channel, and subscribes again when the
subscription ends; and `TunHandle::next`, which takes packets from the channel. The
environment decides what a subscription yields, when it fails, and when the tunnel is
cancelled or its handle dropped. `chanAct` is what a step does to the channel, so the
channel's own law carries over, and `Handed` says what the task adds to it.
-/

namespace NdnMobile.Tunnel

open NdnMobile.Lib NdnMobile.Packet

/-- Where the downlink task is. -/
inductive Task where
  /-- At the head of `'resubscribe: loop`. -/
  | top
  /-- In `consumer.subscribe(..)`. -/
  | subscribing
  /-- In a `select!` beside the sleep of 200 ms. -/
  | sleeping
  /-- In `sub.recv()`. -/
  | receiving
  /-- In `deliver_tx.send(content)`. -/
  | delivering (content : Bytes)
  /-- Out of the loop, the sender dropped. -/
  | ended
  deriving DecidableEq, Repr

/-- The packet that has come in and is not in the channel. -/
def Task.held : Task → List Bytes
  | .delivering content => [content]
  | _ => []

structure Downlink where
  task : Task
  deliver : Channel Bytes
  cancelled : Bool
  deriving DecidableEq, Repr

namespace Downlink

/-- `spawn_tunnel`. -/
def init : Downlink := ⟨.top, .new, false⟩

/-- The task ends. -/
def finish (s : Downlink) : Downlink := { s with task := .ended, deliver := s.deliver.hangUp }

inductive Act where
  /-- The check at the head of the loop. -/
  | head
  | subscribe (ok : Bool)
  /-- What `sub.recv()` yields; none for an error. -/
  | recv (data : Option Data)
  | deliver
  | wake
  /-- A call of `TunHandle::next` goes through. -/
  | next
  /-- The handle is dropped. -/
  | drop
  | cancel
  /-- The task sees the cancellation. -/
  | cancelled
  deriving DecidableEq, Repr

def step (s : Downlink) : Act → Option Downlink
  | .head =>
    match s.task with
    | .top => if s.cancelled then some s.finish else some { s with task := .subscribing }
    | _ => none
  | .subscribe ok =>
    match s.task with
    | .subscribing => some { s with task := if ok then .receiving else .sleeping }
    | _ => none
  | .recv data =>
    match s.task, data with
    | .receiving, some ⟨_, some content⟩ => some { s with task := .delivering content }
    -- a Data without content
    | .receiving, some ⟨_, none⟩ => some s
    | .receiving, none => some { s with task := .sleeping }
    | _, _ => none
  | .deliver =>
    match s.task with
    | .delivering content =>
      match s.deliver.send tunQueueCap content with
      | some (.ok deliver) => some { s with task := .receiving, deliver := deliver }
      -- OS side gone
      | some (.error ()) => some s.finish
      | none => none
    | _ => none
  | .wake =>
    match s.task with
    | .sleeping => some { s with task := .top }
    | _ => none
  | .next =>
    if s.deliver.rx then s.deliver.recv.map fun r => { s with deliver := r.2 } else none
  | .drop => some { s with deliver := s.deliver.leave }
  | .cancel => some { s with cancelled := true }
  | .cancelled =>
    match s.task with
    | .sleeping | .receiving => if s.cancelled then some s.finish else none
    | _ => none

/-! ## What a step can do -/

inductive Move (s : Downlink) : Act → Downlink → Prop where
  | ended : s.task = .top → s.cancelled = true → Move s .head s.finish
  | head : s.task = .top → s.cancelled = false → Move s .head { s with task := .subscribing }
  | subscribe : s.task = .subscribing → Move s (.subscribe true) { s with task := .receiving }
  | failed : s.task = .subscribing → Move s (.subscribe false) { s with task := .sleeping }
  | recv {name : Name} {content : Bytes} : s.task = .receiving →
    Move s (.recv (some ⟨name, some content⟩)) { s with task := .delivering content }
  | bare {name : Name} : s.task = .receiving → Move s (.recv (some ⟨name, none⟩)) s
  | lost : s.task = .receiving → Move s (.recv none) { s with task := .sleeping }
  | deliver {content : Bytes} : s.task = .delivering content →
    s.deliver.hasRoom tunQueueCap = true →
    Move s .deliver { s with task := .receiving, deliver := s.deliver.push content }
  | refused {content : Bytes} : s.task = .delivering content → s.deliver.rx = false →
    Move s .deliver s.finish
  | wake : s.task = .sleeping → Move s .wake { s with task := .top }
  | next {ip : Bytes} {queue : List Bytes} : s.deliver.rx = true → s.deliver.queue = ip :: queue →
    Move s .next { s with deliver := { s.deliver with queue := queue } }
  /-- `next` answers `None`. -/
  | none : s.deliver.rx = true → s.deliver.queue = [] → s.deliver.tx = false → Move s .next s
  | drop : Move s .drop { s with deliver := s.deliver.leave }
  | cancel : Move s .cancel { s with cancelled := true }
  | cancelled : s.task = .sleeping ∨ s.task = .receiving → s.cancelled = true →
    Move s .cancelled s.finish

variable {s t : Downlink} {a : Act}

theorem step_move (h : step s a = some t) : Move s a t := by
  cases a with
  | head =>
    simp only [step] at h
    split at h
    · split at h <;> cases h
      · exact .ended ‹_› ‹_›
      · exact .head ‹_› (Bool.eq_false_iff.mpr ‹_›)
    · cases h
  | subscribe ok =>
    simp only [step] at h
    split at h <;> cases h
    cases ok with
    | true => exact .subscribe ‹_›
    | false => exact .failed ‹_›
  | recv data =>
    simp only [step] at h
    split at h <;> cases h
    · exact .recv ‹_›
    · exact .bare ‹_›
    · exact .lost ‹_›
  | deliver =>
    simp only [step, Channel.send] at h
    split at h
    · rename_i content htask
      by_cases hrx : s.deliver.rx = true
      · by_cases hroom : s.deliver.hasRoom tunQueueCap = true
        · rw [if_pos hrx, if_pos hroom] at h
          cases h
          exact .deliver htask hroom
        · rw [if_pos hrx, if_neg hroom] at h
          cases h
      · rw [if_neg hrx] at h
        cases h
        exact .refused htask (Bool.eq_false_iff.mpr hrx)
    · cases h
  | wake =>
    simp only [step] at h
    split at h <;> cases h
    exact .wake ‹_›
  | next =>
    simp only [step, Channel.recv] at h
    split at h
    · rename_i hrx
      split at h
      · cases h
        exact .next hrx ‹_›
      · rename_i hq
        split at h <;> cases h
        exact .none hrx hq (Bool.eq_false_iff.mpr ‹_›)
    · cases h
  | drop => cases h; exact .drop
  | cancel => cases h; exact .cancel
  | cancelled =>
    simp only [step] at h
    split at h
    · split at h <;> cases h
      exact .cancelled (.inl ‹_›) ‹_›
    · split at h <;> cases h
      exact .cancelled (.inr ‹_›) ‹_›
    · cases h

/-! ## Packets -/

/-- The packet a step of the subscription brings in. -/
def incoming (x : Trans Downlink Act) : Option Bytes :=
  match x.act with
  | .recv (some data) => data.content
  | _ => none

/-- The packet the task puts in the channel. -/
def handedOver (x : Trans Downlink Act) : Option Bytes :=
  match x.act with
  | .deliver =>
    match x.pre.task with
    | .delivering content => if x.pre.deliver.hasRoom tunQueueCap then some content else none
    | _ => none
  | _ => none

/-- What a call of `next` answers. -/
def answer (x : Trans Downlink Act) : Option Bytes :=
  match x.act with
  | .next => x.pre.deliver.queue.head?
  | _ => none

/-- The packets that came in, oldest first. -/
def contents (tr : List (Trans Downlink Act)) : List Bytes := tr.filterMap incoming

/-- The packets put in the channel. -/
def handed (tr : List (Trans Downlink Act)) : List Bytes := tr.filterMap handedOver

/-- The packets the calls of `next` returned. -/
def returned (tr : List (Trans Downlink Act)) : List Bytes := tr.filterMap answer

variable {past : List (Trans Downlink Act)}

theorem contents_snoc (x : Trans Downlink Act) :
    contents (past ++ [x]) = contents past ++ (incoming x).toList := filterMap_snoc _ past x

theorem handed_snoc (x : Trans Downlink Act) :
    handed (past ++ [x]) = handed past ++ (handedOver x).toList := filterMap_snoc _ past x

theorem returned_snoc (x : Trans Downlink Act) :
    returned (past ++ [x]) = returned past ++ (answer x).toList := filterMap_snoc _ past x

/-! ## The channel -/

/-- What a step does to the channel. -/
def chanAct (s : Downlink) : Act → Option (Channel.Act Bytes)
  | .head => if s.cancelled then some .hangUp else none
  | .deliver =>
    match s.task with
    | .delivering content => if s.deliver.rx then some (.send content) else some .hangUp
    | _ => none
  | .next => some .recv
  | .drop => some .leave
  | .cancelled => some .hangUp
  | _ => none

theorem chan_step (h : step s a = some t) :
    (∃ b, chanAct s a = some b ∧ stepRel (Channel.step tunQueueCap) s.deliver b t.deliver) ∨
      chanAct s a = none ∧ t.deliver = s.deliver := by
  cases step_move h with
  | ended _ hc => exact .inl ⟨.hangUp, if_pos hc, rfl⟩
  | head _ hc => exact .inr ⟨by simp only [chanAct, hc]; rfl, rfl⟩
  | subscribe | failed | recv | bare | lost | wake | cancel => exact .inr ⟨rfl, rfl⟩
  | @deliver content htask hroom =>
    have hrx := (Channel.hasRoom_iff.mp hroom).1
    refine .inl ⟨.send content, by simp only [chanAct, htask, if_pos hrx], ?_⟩
    simp only [stepRel, Channel.step, Channel.send, if_pos hrx, if_pos hroom]
    rfl
  | refused htask hrx =>
    exact .inl ⟨.hangUp, by simp only [chanAct, htask, hrx]; rfl, rfl⟩
  | next hrx hq =>
    refine .inl ⟨.recv, rfl, ?_⟩
    simp only [stepRel, Channel.step, Channel.recv, if_pos hrx, hq]
    rfl
  | none hrx hq htx =>
    refine .inl ⟨.recv, rfl, ?_⟩
    simp [stepRel, Channel.step, Channel.recv, hrx, hq, htx]
  | drop => exact .inl ⟨.leave, rfl, rfl⟩
  | cancelled => exact .inl ⟨.hangUp, rfl, rfl⟩

/-- The run of the channel within a run of the downlink. -/
def chan (tr : List (Trans Downlink Act)) : List (Trans (Channel Bytes) (Channel.Act Bytes)) :=
  tr.filterMap fun x => (chanAct x.pre x.act).map fun b => ⟨x.pre.deliver, b, x.post.deliver⟩

theorem received_chan (tr : List (Trans Downlink Act)) :
    Channel.received (chan tr) = returned tr := by
  rw [Channel.received, chan, List.filterMap_filterMap, returned]
  congr 1
  funext ⟨s, a, t⟩
  cases a with
  | head => simp only [chanAct, answer]; split <;> rfl
  | deliver =>
    simp only [chanAct, answer]
    split
    · split <;> rfl
    · rfl
  | _ => rfl

theorem sent_chan (tr : List (Trans Downlink Act)) :
    Channel.sent tunQueueCap (chan tr) = handed tr := by
  rw [Channel.sent, chan, List.filterMap_filterMap, handed]
  congr 1
  funext ⟨s, a, t⟩
  cases a with
  | head => simp only [chanAct, handedOver]; split <;> rfl
  | deliver =>
    simp only [chanAct, handedOver]
    cases s.task with
    | delivering content =>
      by_cases hrx : s.deliver.rx = true
      · simp only [if_pos hrx]
        rfl
      · simp [Channel.wentIn, Channel.hasRoom, hrx]
    | _ => rfl
  | _ => rfl

variable {tr : List (Trans Downlink Act)} {u : Downlink}

/-- The channel's law, in the downlink's words. -/
theorem chan_exact (h : Run (stepRel step) .init tr u) :
    returned tr <+: handed tr ∧
      (u.deliver.rx = true → handed tr = returned tr ++ u.deliver.queue) ∧
      u.deliver.queue.length ≤ tunQueueCap := by
  obtain ⟨tr', hrun, rfl⟩ := h.component deliver
    (fun x => chanAct x.pre x.act) chan_step
  obtain ⟨hfirst, horder, hlen⟩ := Channel.run_exact hrun
  exact ⟨received_chan tr ▸ sent_chan tr ▸ hfirst,
    fun hrx => received_chan tr ▸ sent_chan tr ▸ horder hrx, hlen⟩

/-! ## The task -/

/-- The task has not failed to hand a packet over. -/
def Intact (s : Downlink) : Prop := s.task = .ended → s.deliver.rx = true

theorem Intact.of_task (h : s.task ≠ .ended) : Intact s := fun he => absurd he h

/-- What came in is what was handed over, in order, and the packet the task holds. -/
structure Handed (past : List (Trans Downlink Act)) (s : Downlink) : Prop where
  first : handed past <+: contents past
  order : Intact s → contents past = handed past ++ s.task.held
  /-- The sender is dropped as the task ends. -/
  tx : s.deliver.tx = true ↔ s.task ≠ .ended

/-- A step that brings nothing in and hands nothing over. -/
theorem Handed.frame (h : Handed past s) (hin : incoming ⟨s, a, t⟩ = none)
    (hout : handedOver ⟨s, a, t⟩ = none) (hi : Intact t → Intact s ∧ t.task.held = s.task.held)
    (htx : t.deliver.tx = true ↔ t.task ≠ .ended) : Handed (past ++ [⟨s, a, t⟩]) t := by
  refine ⟨?_, fun ht => ?_, htx⟩
  · rw [contents_snoc, handed_snoc, hin, hout, Option.toList_none, List.append_nil,
      List.append_nil]
    exact h.first
  · rw [contents_snoc, handed_snoc, hin, hout, Option.toList_none, List.append_nil,
      List.append_nil, (hi ht).2]
    exact h.order (hi ht).1

/-- Such a step from where the task runs and holds nothing to where it holds nothing. -/
theorem Handed.idle (h : Handed past s) (hin : incoming ⟨s, a, t⟩ = none)
    (hout : handedOver ⟨s, a, t⟩ = none) (hrun : s.task ≠ .ended) (hs : s.task.held = [])
    (ht : t.task.held = []) (htx : t.deliver.tx = true ↔ t.task ≠ .ended) :
    Handed (past ++ [⟨s, a, t⟩]) t :=
  h.frame hin hout (fun _ => ⟨.of_task hrun, ht.trans hs.symm⟩) htx

theorem Handed.recv {name : Name} {content : Bytes} (h : Handed past s)
    (htask : s.task = .receiving) :
    Handed (past ++
      [⟨s, .recv (some ⟨name, some content⟩), { s with task := .delivering content }⟩])
      { s with task := .delivering content } := by
  have horder := h.order (.of_task (by simp [htask]))
  refine ⟨?_, fun _ => ?_, by simpa [htask] using h.tx⟩
  · rw [contents_snoc, handed_snoc]
    exact (List.append_nil _).symm ▸ h.first.trans (List.prefix_append ..)
  · rw [contents_snoc, handed_snoc, horder, htask]
    simp [handedOver, incoming, Task.held]

theorem Handed.deliver {content : Bytes} (h : Handed past s) (htask : s.task = .delivering content)
    (hroom : s.deliver.hasRoom tunQueueCap = true) :
    Handed (past ++ [⟨s, .deliver, { s with
        task := .receiving, deliver := s.deliver.push content }⟩])
      { s with task := .receiving, deliver := s.deliver.push content } := by
  have horder := h.order (.of_task (by simp [htask]))
  have hout : handedOver ⟨s, .deliver, { s with
      task := .receiving, deliver := s.deliver.push content }⟩ = some content := by
    simp only [handedOver, htask, if_pos hroom]
  rw [htask] at horder
  refine ⟨?_, fun _ => ?_, by simpa [htask, Channel.push] using h.tx⟩
  · rw [contents_snoc, handed_snoc, hout, horder]
    simp [incoming, Task.held]
  · rw [contents_snoc, handed_snoc, hout, horder]
    simp [incoming, Task.held]

theorem Handed.step (h : Handed past s) (hm : Move s a t) : Handed (past ++ [⟨s, a, t⟩]) t := by
  cases hm with
  | ended htask _ =>
    exact h.idle rfl rfl (by simp [htask]) (by rw [htask]; rfl) rfl
      (by simp [finish, Channel.hangUp])
  | head htask _ | subscribe htask | failed htask | lost htask | wake htask =>
    exact h.idle rfl rfl (by simp [htask]) (by rw [htask]; rfl) rfl (by simpa [htask] using h.tx)
  | recv htask => exact h.recv htask
  | deliver htask hroom => exact h.deliver htask hroom
  | bare | next | none | cancel => exact h.frame rfl rfl (fun hi => ⟨hi, rfl⟩) h.tx
  | drop =>
    exact h.frame rfl rfl (fun hi => ⟨fun he => absurd (hi he) Bool.false_ne_true, rfl⟩) h.tx
  | refused htask hrx =>
    have hroom : s.deliver.hasRoom tunQueueCap = false := by rw [Channel.hasRoom, hrx]; rfl
    refine h.frame rfl (by simp [handedOver, htask, hroom]) (fun hi => ?_)
      (by simp [finish, Channel.hangUp])
    exact absurd ((hi rfl).symm.trans hrx) Bool.true_eq_false.mp
  | cancelled htask _ =>
    rcases htask with htask | htask <;>
      exact h.idle rfl rfl (by simp [htask]) (by rw [htask]; rfl) rfl
        (by simp [finish, Channel.hangUp])

theorem handed_run (h : Run (stepRel Downlink.step) .init tr u) : Handed tr u :=
  h.inv_hist (I := Handed) (fun hi hs => hi.step (step_move hs))
    ⟨List.prefix_refl _, fun _ => rfl, by simp [init, Channel.new]⟩

/-! ## The end of the stream -/

/-- The task is over and everything that came in has been returned. -/
structure Drained (past : List (Trans Downlink Act)) (s : Downlink) : Prop where
  task : s.task = .ended
  queue : s.deliver.queue = []
  all : contents past = returned past

theorem Drained.step (h : Drained past s) (hm : Move s a t) :
    Drained (past ++ [⟨s, a, t⟩]) t := by
  have hall : incoming ⟨s, a, t⟩ = none → answer ⟨s, a, t⟩ = none →
      contents (past ++ [⟨s, a, t⟩]) = returned (past ++ [⟨s, a, t⟩]) := by
    intro hin hout
    rw [contents_snoc, returned_snoc, hin, hout, h.all]
  cases hm with
  | next _ hq => rw [h.queue] at hq; cases hq
  | none => exact ⟨h.task, h.queue, hall rfl (by simp [answer, h.queue])⟩
  | drop => exact ⟨h.task, rfl, hall rfl rfl⟩
  | cancel => exact ⟨h.task, h.queue, hall rfl rfl⟩
  | ended htask | head htask | subscribe htask | failed htask | recv htask | bare htask
  | lost htask | deliver htask | refused htask | wake htask => rw [h.task] at htask; cases htask
  | cancelled htask => rw [h.task] at htask; rcases htask with htask | htask <;> cases htask

/-- `next` answers `None` only when everything that came in has been returned. -/
theorem drained_of_none (h : Run (stepRel Downlink.step) .init tr u) {x : Trans Downlink Act}
    (hx : x ∈ tr) (hact : x.act = .next) (hnone : answer x = none) :
    contents tr = returned tr := by
  obtain ⟨before, after, rfl⟩ := List.append_of_mem hx
  obtain ⟨s, hbefore, hrest⟩ := h.of_append
  cases hrest with
  | @cons _ t _ a _ hs hafter =>
    subst hact
    have hm := step_move hs
    have hstart : Drained before s := by
      cases hm with
      | next _ hq => simp [answer, hq] at hnone
      | none hrx hq htx =>
        obtain ⟨-, horder, -⟩ := chan_exact hbefore
        have hh := handed_run hbefore
        have htask : s.task = .ended := by
          by_contra hne
          exact absurd (hh.tx.mpr hne) (Bool.eq_false_iff.mp htx)
        refine ⟨htask, hq, ?_⟩
        rw [hh.order (fun _ => hrx), horder hrx, hq, htask, List.append_nil]
        exact List.append_nil _
    have hrun := hafter.inv_hist_from (I := Drained) (fun hd hs => hd.step (step_move hs)) _
      (hstart.step hm)
    rw [List.append_assoc] at hrun
    exact hrun.all

/-! ## Runs -/

/-- **The downlink, over every run**: what `next` has returned are the first packets that
came in, in order and each once; as long as the handle is there, the others are in the
channel, of bounded length, but for at most one that the task holds; and `next` answers
`None` only when all that ever comes in has been returned. -/
theorem downlink_exact {tr : List (Trans Downlink Act)} {u : Downlink}
    (h : Run (stepRel Downlink.step) .init tr u) :
    returned tr <+: contents tr ∧
      (u.deliver.rx = true → u.task.held.length ≤ 1 ∧
        contents tr = returned tr ++ (u.deliver.queue ++ u.task.held)) ∧
      u.deliver.queue.length ≤ tunQueueCap ∧
      ∀ x ∈ tr, x.act = .next → answer x = none → contents tr = returned tr := by
  obtain ⟨hfirst, horder, hlen⟩ := chan_exact h
  have hh := handed_run h
  refine ⟨hfirst.trans hh.first, fun hrx => ⟨?_, ?_⟩, hlen,
    fun x hx hact hnone => drained_of_none h hx hact hnone⟩
  · cases u.task <;> simp [Task.held]
  · rw [hh.order (fun _ => hrx), horder hrx, List.append_assoc]

/-- A subscription that brings two packets and fails, a packet read, the tunnel cancelled,
the other packet read, and the end. -/
def twoDeliveries : List Act := [.head, .subscribe true, .recv (some ⟨[], some [1]⟩), .deliver,
  .next, .recv (some ⟨[], some [2]⟩), .deliver, .recv none, .cancel, .cancelled, .next, .next]

theorem downlink_exact_twoDeliveries : ∃ tr u,
    Run (stepRel Downlink.step) .init tr u ∧ tr.map (·.act) = twoDeliveries ∧
    returned tr <+: contents tr ∧
      (u.deliver.rx = true → u.task.held.length ≤ 1 ∧
        contents tr = returned tr ++ (u.deliver.queue ++ u.task.held)) ∧
      u.deliver.queue.length ≤ tunQueueCap ∧
      ∀ x ∈ tr, x.act = .next → answer x = none → contents tr = returned tr := by
  obtain ⟨u, hu⟩ : ∃ u, exec Downlink.step .init twoDeliveries = some u := ⟨_, rfl⟩
  obtain ⟨tr, hrun, hacts⟩ := exec_run hu
  exact ⟨tr, u, hrun, hacts, downlink_exact hrun⟩

end Downlink

end NdnMobile.Tunnel
