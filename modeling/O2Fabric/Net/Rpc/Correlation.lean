/-
  O2Fabric.Net.Rpc.Correlation

  What an endpoint's promises come to, in every run.

    * `Numbered`: no two requests have one id.
    * `Filed`: a request is settled, or filed under its key with its timer set,
      and the map holds nothing else.
    * `Answered`: a request was resolved with the body of a response frame from
      the peer it was sent to, under its id.
    * `Serving`: a request frame has at most one invocation of the handler and one
      reply.

  Each is kept by every step.  `Numbered` and `Filed` have a condition each: the
  ids run out at `2^53`, and a rejected `send` whose cause has no text throws
  before it rejects.
-/

import O2Fabric.Net.Rpc

namespace O2Fabric.Net

/-! ## Keys -/

/-- A key can be read back, whatever the peer is called. -/
theorem pendingKey_inj {peer peer' : JsString} {id id' : ℤ}
    (h : pendingKey peer id = pendingKey peer' id') : peer = peer' ∧ id = id' := by
  obtain ⟨hpeer, hid⟩ := append_separator_inj (NUL_notMem_integerText id)
    (NUL_notMem_integerText id') h
  exact ⟨hpeer, integerText_injective hid⟩

namespace RpcEndpoint

variable {options : RpcOptions} {s s' : RpcEndpoint}

variable {r : Request} {key : JsString}

theorem keyOf_eq (h : keyOf r = some key) :
    ∃ id : Nat, r.id = some id ∧ key = pendingKey r.to_ id := by
  obtain ⟨id, hid, rfl⟩ := Option.map_eq_some_iff.mp h
  exact ⟨id, hid, rfl⟩

/-! ## Ids -/

/-- No id was given twice, and the next is new. -/
structure Numbered (s : RpcEndpoint) : Prop where
  apart : ∀ (n m : Nat) (r r' : Request) (id : Nat), s.requests[n]? = some r → s.requests[m]? = some r' →
    r.id = some id → r'.id = some id → n = m
  next : s.requests.length < 2 ^ 53 → ∀ r ∈ s.requests, ∀ id, r.id = some id → id < s.nextId
  room : s.nextId ≤ s.requests.length + 1

/-- The requests have the addresses and ids they had. -/
def SameRequests (s s' : RpcEndpoint) : Prop :=
  s'.requests.length = s.requests.length ∧ s'.nextId = s.nextId ∧
    ∀ (n : Nat) (r' : Request), s'.requests[n]? = some r' →
      ∃ r : Request, s.requests[n]? = some r ∧ r'.to_ = r.to_ ∧ r'.id = r.id

theorem Numbered.of_same (h : s.Numbered) (hsame : SameRequests s s') : s'.Numbered := by
  obtain ⟨hlength, hnext, hrequests⟩ := hsame
  refine ⟨?_, ?_, ?_⟩
  · intro n m r r' id hn hm hid hid'
    obtain ⟨x, hx, -, hxid⟩ := hrequests n r hn
    obtain ⟨y, hy, -, hyid⟩ := hrequests m r' hm
    exact h.apart n m x y id hx hy (hxid ▸ hid) (hyid ▸ hid')
  · intro hlt r hr id hid
    obtain ⟨n, hn⟩ := List.mem_iff_getElem?.mp hr
    obtain ⟨x, hx, -, hxid⟩ := hrequests n r hn
    rw [hnext]
    exact h.next (by omega) x (List.mem_of_getElem? hx) id (hxid ▸ hid)
  · have hroom := h.room
    omega

/-- A request whose id is new. -/
theorem Numbered.issue (h : s.Numbered) {id : Nat} (hid : r.id = some id) (hnew : id = s.nextId)
    (hlt : s.requests.length < 2 ^ 53) (hrequests : s'.requests = s.requests ++ [r])
    (hnext : s'.nextId = bump s.nextId) :
    s'.Numbered := by
  have hroom := h.room
  have hbump : bump s.nextId ≤ s.nextId + 1 := by
    unfold bump
    split <;> omega
  refine ⟨?_, ?_, ?_⟩
  · -- The new one is last, and the others' ids are below its own.
    have hold : ∀ (n : Nat) (x : Request) (i : Nat), s.requests[n]? = some x → x.id = some i → i ≠ id := by
      intro n x i hx hi heq
      have hbelow := h.next hlt x (List.mem_of_getElem? hx) i hi
      omega
    intro n m x y i hx hy hxi hyi
    rw [hrequests] at hx hy
    rcases getElem?_concat_cases hx with hx' | ⟨hn, hxr⟩ <;>
      rcases getElem?_concat_cases hy with hy' | ⟨hm, hyr⟩
    · exact h.apart n m x y i hx' hy' hxi hyi
    · rw [hyr, hid, Option.some.injEq] at hyi
      exact absurd hyi.symm (hold n x i hx' hxi)
    · rw [hxr, hid, Option.some.injEq] at hxi
      exact absurd hxi.symm (hold m y i hy' hyi)
    · omega
  · intro hlt' x hx i hi
    rw [hrequests] at hx hlt'
    rw [List.length_append, List.length_singleton] at hlt'
    have hadvance : s'.nextId = s.nextId + 1 := by
      rw [hnext, bump, if_pos (by omega)]
    rcases List.mem_append.mp hx with hx | hx
    · have hbelow := h.next hlt x hx i hi
      omega
    · rw [List.mem_singleton.mp hx, hid, Option.some.injEq] at hi
      omega
  · rw [hrequests, List.length_append, List.length_singleton, hnext]
    omega

/-- A request that was given no id. -/
theorem Numbered.refuse (h : s.Numbered) (hid : r.id = none)
    (hrequests : s'.requests = s.requests ++ [r]) (hnext : s'.nextId = s.nextId) :
    s'.Numbered := by
  refine ⟨?_, ?_, ?_⟩
  · intro n m x y i hx hy hxi hyi
    rw [hrequests] at hx hy
    rcases getElem?_concat_cases hx with hx' | ⟨-, hxr⟩
    · rcases getElem?_concat_cases hy with hy' | ⟨-, hyr⟩
      · exact h.apart n m x y i hx' hy' hxi hyi
      · rw [hyr, hid] at hyi
        cases hyi
    · rw [hxr, hid] at hxi
      cases hxi
  · intro hlt x hx i hi
    rw [hrequests] at hlt hx
    rw [List.length_append, List.length_singleton] at hlt
    rw [hnext]
    rcases List.mem_append.mp hx with hx | hx
    · exact h.next (by omega) x hx i hi
    · rw [List.mem_singleton.mp hx, hid] at hi
      cases hi
  · have hroom := h.room
    rw [hrequests, List.length_append, List.length_singleton, hnext]
    omega

/-! ## The map -/

/-- One call of `resolve` or `reject`, and no timer. -/
def Done (r : Request) : Prop := (∃ outcome, r.settlements = [outcome]) ∧ r.armed = false

/-- Filed under its key, with its timer set and neither of the two called. -/
def Waits (s : RpcEndpoint) (n : Nat) (r : Request) : Prop :=
  r.settlements = [] ∧ r.armed = true ∧
    ∃ key, keyOf r = some key ∧ s.pending.get? key = some n

/-- A request is done or waits, and every entry is one that waits. -/
structure Filed (s : RpcEndpoint) : Prop where
  each : ∀ (n : Nat) (r : Request), s.requests[n]? = some r → Done r ∨ s.Waits n r
  filed : ∀ (key : JsString) (n : Nat), s.pending.get? key = some n →
    ∃ r, s.requests[n]? = some r ∧ keyOf r = some key ∧ r.settlements = []
  closed : s.closed = true → s.pending = .empty

/-- The requests of `s` under other flags of the transport's. -/
theorem Filed.of_flags (h : s.Filed) (hpending : s'.pending = s.pending)
    (hclosed : s'.closed = s.closed)
    (hforth : ∀ (n : Nat) (r' : Request), s'.requests[n]? = some r' →
      ∃ r, s.requests[n]? = some r ∧ r'.settlements = r.settlements ∧ r'.armed = r.armed ∧
        keyOf r' = keyOf r)
    (hback : ∀ (n : Nat) (r : Request), s.requests[n]? = some r →
      ∃ r', s'.requests[n]? = some r' ∧ r'.settlements = r.settlements ∧ keyOf r' = keyOf r) :
    s'.Filed := by
  refine ⟨?_, ?_, ?_⟩
  · intro n r' hn
    obtain ⟨r, hr, hsettlements, harmed, hkey⟩ := hforth n r' hn
    rcases h.each n r hr with ⟨hone, hoff⟩ | ⟨hnone, hon, key, hfiled, hget⟩
    · exact Or.inl ⟨hsettlements ▸ hone, harmed ▸ hoff⟩
    · exact Or.inr ⟨hsettlements ▸ hnone, harmed ▸ hon, key, hkey ▸ hfiled, hpending ▸ hget⟩
  · intro key n hget
    rw [hpending] at hget
    obtain ⟨r, hr, hkey, hnone⟩ := h.filed key n hget
    obtain ⟨r', hr', hsettlements, hkey'⟩ := hback n r hr
    exact ⟨r', hr', hkey'.trans hkey, hsettlements.trans hnone⟩
  · intro hc
    rw [hpending]
    exact h.closed (hclosed ▸ hc)

variable {n : Nat}

/-- The one request filed under a key comes to an end. -/
theorem Filed.ends (h : s.Filed) (hget : s.pending.get? key = some n)
    (hpending : s'.pending = s.pending.delete key) (hclosed : s'.closed = s.closed)
    (outcome : Settlement) (hrequests : ∀ m : Nat, s'.requests[m]? = (fun r : Request =>
      if n = m then r.disarm.settle outcome else r) <$> s.requests[m]?) : s'.Filed := by
  obtain ⟨r, hr, hkey, hnone⟩ := h.filed key n hget
  refine ⟨?_, ?_, ?_⟩
  · intro m x' hm
    rw [hrequests] at hm
    obtain ⟨x, hx, rfl⟩ := Option.map_eq_some_iff.mp hm
    by_cases hmn : n = m
    · subst hmn
      obtain rfl := Option.some.inj (hr.symm.trans hx)
      rw [if_pos rfl]
      refine Or.inl ⟨⟨outcome, ?_⟩, rfl⟩
      show r.settlements ++ [outcome] = [outcome]
      rw [hnone]
      rfl
    · rw [if_neg hmn]
      rcases h.each m x hx with hdone | ⟨hopen, harmed, key', hkey', hget'⟩
      · exact Or.inl hdone
      · refine Or.inr ⟨hopen, harmed, key', hkey', ?_⟩
        have hother : key' ≠ key := by
          rintro rfl
          exact hmn (Option.some.inj (hget.symm.trans hget'))
        rw [hpending, InsertionMap.get?_delete, if_neg hother]
        exact hget'
  · intro key' m hget'
    rw [hpending, InsertionMap.get?_delete] at hget'
    obtain ⟨hother, hget'⟩ := Option.ite_none_left_eq_some.mp hget'
    obtain ⟨x, hx, hkey', hopen⟩ := h.filed key' m hget'
    have hmn : n ≠ m := by
      rintro rfl
      obtain rfl := Option.some.inj (hr.symm.trans hx)
      exact hother (Option.some.inj (hkey'.symm.trans hkey))
    refine ⟨x, ?_, hkey', hopen⟩
    rw [hrequests, hx, Option.map_eq_map, Option.map_some, if_neg hmn]
  · intro hc
    have hempty := h.closed (hclosed ▸ hc)
    rw [hempty] at hget
    cases hget

/-- A request that was never filed. -/
theorem Filed.fails (h : s.Filed) (hdone : Done r) (hpending : s'.pending = s.pending)
    (hclosed : s'.closed = s.closed) (hrequests : s'.requests = s.requests ++ [r]) : s'.Filed := by
  refine ⟨?_, ?_, ?_⟩
  · intro n x hx
    rw [hrequests] at hx
    rcases getElem?_concat_cases hx with hx | ⟨-, rfl⟩
    · rcases h.each n x hx with hdone | ⟨hopen, harmed, key, hkey, hget⟩
      · exact Or.inl hdone
      · exact Or.inr ⟨hopen, harmed, key, hkey, hpending ▸ hget⟩
    · exact Or.inl hdone
  · intro key n hget
    rw [hpending] at hget
    obtain ⟨x, hx, hkey, hopen⟩ := h.filed key n hget
    refine ⟨x, ?_, hkey, hopen⟩
    rw [hrequests, List.getElem?_append_left (List.getElem?_eq_some_iff.mp hx).1]
    exact hx
  · intro hc
    rw [hpending]
    exact h.closed (hclosed ▸ hc)

/-- A request filed under a key of its own. -/
theorem Filed.files (h : s.Filed) (hopen : r.settlements = []) (harmed : r.armed = true)
    (hkey : keyOf r = some key) (hnew : s.pending.get? key = none) (hnotClosed : s'.closed = false)
    (hpending : s'.pending = s.pending.set key s.requests.length)
    (hrequests : s'.requests = s.requests ++ [r]) : s'.Filed := by
  refine ⟨?_, ?_, ?_⟩
  · intro n x hx
    rw [hrequests] at hx
    rcases getElem?_concat_cases hx with hx | ⟨rfl, rfl⟩
    · rcases h.each n x hx with hdone | ⟨hopen', harmed', key', hkey', hget⟩
      · exact Or.inl hdone
      · refine Or.inr ⟨hopen', harmed', key', hkey', ?_⟩
        have hother : key' ≠ key := by
          rintro rfl
          rw [hnew] at hget
          cases hget
        rw [hpending, InsertionMap.get?_set, if_neg hother]
        exact hget
    · refine Or.inr ⟨hopen, harmed, key, hkey, ?_⟩
      rw [hpending, InsertionMap.get?_set_self]
  · intro key' n hget
    rw [hpending, InsertionMap.get?_set] at hget
    split at hget
    · next heq =>
      cases hget
      refine ⟨r, ?_, heq ▸ hkey, hopen⟩
      rw [hrequests, List.getElem?_concat_length]
    · obtain ⟨x, hx, hkey', hopen'⟩ := h.filed key' n hget
      refine ⟨x, ?_, hkey', hopen'⟩
      rw [hrequests, List.getElem?_append_left (List.getElem?_eq_some_iff.mp hx).1]
      exact hx
  · intro hc
    rw [hnotClosed] at hc
    cases hc

/-- A fold that changes each place of a list of distinct places once. -/
theorem getElem?_foldl_modify {α : Type} (f : α → α) {places : List Nat} (hnodup : places.Nodup)
    (l : List α) (m : Nat) :
    (places.foldl (fun l place => l.modify place f) l)[m]?
      = (fun x => if m ∈ places then f x else x) <$> l[m]? := by
  induction places generalizing l with
  | nil => simp
  | cons place rest ih =>
    obtain ⟨hnot, hrest⟩ := List.nodup_cons.mp hnodup
    rw [List.foldl_cons, ih hrest, List.getElem?_modify, Option.map_eq_map, Option.map_eq_map,
      Option.map_eq_map, Option.map_map]
    congr 1
    funext x
    by_cases hm : place = m
    · subst hm
      simp [hnot]
    · have hne : m ≠ place := fun heq => hm heq.symm
      simp [hm, hne]

/-- Two keys do not lead to one request. -/
theorem Filed.values_nodup (h : s.Filed) : s.pending.values.Nodup := by
  have hentries : s.pending.entries.Nodup := s.pending.keys_nodup.of_map _
  apply List.Nodup.map_on _ hentries
  intro e he e' he' heq
  obtain ⟨r, hr, hkey, -⟩ := h.filed e.1 e.2 (InsertionMap.get?_eq_some.mpr he)
  obtain ⟨r', hr', hkey', -⟩ := h.filed e'.1 e'.2 (InsertionMap.get?_eq_some.mpr he')
  rw [heq] at hr
  obtain rfl := Option.some.inj (hr.symm.trans hr')
  exact Prod.ext (Option.some.inj (hkey.symm.trans hkey')) heq

theorem getElem?_close (h : s.Filed) (hclosed : s.closed = false) (m : Nat) :
    s.close.requests[m]? = (fun r : Request =>
      if m ∈ s.pending.values then r.disarm.settle (.rejected (.rpc .closed)) else r)
        <$> s.requests[m]? := by
  unfold close
  rw [if_neg (by rw [hclosed]; exact Bool.false_ne_true)]
  exact getElem?_foldl_modify _ h.values_nodup s.requests m

theorem Filed.closes (h : s.Filed) : s.close.Filed := by
  cases hclosed : s.closed with
  | true =>
    unfold close
    rw [if_pos hclosed]
    exact h
  | false =>
    have hempty : s.close.pending = .empty := by
      unfold close
      rw [if_neg (by rw [hclosed]; exact Bool.false_ne_true)]
    refine ⟨?_, ?_, fun _ => hempty⟩
    · intro m x' hm
      rw [getElem?_close h hclosed] at hm
      obtain ⟨x, hx, rfl⟩ := Option.map_eq_some_iff.mp hm
      refine Or.inl ?_
      split
      · next hin =>
        obtain ⟨key, hget⟩ := InsertionMap.mem_values_iff.mp hin
        obtain ⟨r, hr, -, hopen⟩ := h.filed key m hget
        obtain rfl := Option.some.inj (hr.symm.trans hx)
        refine ⟨⟨.rejected (.rpc .closed), ?_⟩, rfl⟩
        show r.settlements ++ [_] = [_]
        rw [hopen]
        rfl
      · next hnot =>
        rcases h.each m x hx with hdone | ⟨-, -, key, -, hget⟩
        · exact hdone
        · exact absurd (InsertionMap.mem_values_iff.mpr ⟨key, hget⟩) hnot
    · intro key n hget
      rw [hempty] at hget
      cases hget

/-! ## The frames that resolved -/

/-- The frame a request was resolved by came from the peer it was sent to, was a
    response under its id, and had that body. -/
def Answered (options : RpcOptions) (s : RpcEndpoint) : Prop :=
  ∀ (n : Nat) (r : Request) (frame : Nat) (body : CanonicalValue), s.requests[n]? = some r →
    .resolved frame body ∈ r.settlements →
      ∃ (message : Bytes) (id : Nat), s.arrived[frame]? = some (r.to_, message) ∧
        r.id = some id ∧ options.inbound message = some ⟨some (js "res"), id, body⟩

/-- Nothing more was resolved. -/
theorem Answered.carry (h : s.Answered options) (harrived : s.arrived <+: s'.arrived)
    (hrequests : ∀ (n : Nat) (r' : Request) (frame : Nat) (body : CanonicalValue),
      s'.requests[n]? = some r' → .resolved frame body ∈ r'.settlements →
        ∃ r, s.requests[n]? = some r ∧ r'.to_ = r.to_ ∧ r'.id = r.id ∧
          .resolved frame body ∈ r.settlements) : s'.Answered options := by
  intro n r' frame body hn hin
  obtain ⟨r, hr, hto, hid, hresolved⟩ := hrequests n r' frame body hn hin
  obtain ⟨message, id, hframe, hnumber, hinbound⟩ := h n r frame body hr hresolved
  refine ⟨message, id, ?_, hid.trans hnumber, hinbound⟩
  obtain ⟨more, hmore⟩ := harrived
  rw [hto, ← hmore, List.getElem?_append_left (List.getElem?_eq_some_iff.mp hframe).1]
  exact hframe

/-! ## The handler -/

/-- Each request frame has at most one invocation of the handler, and each
    invocation at most one reply, to the frame's sender and under its id. -/
structure Serving (options : RpcOptions) (s : RpcEndpoint) : Prop where
  invokedOnce : (s.calls.map HandlerCall.frame).Nodup
  invoked : ∀ c ∈ s.calls, ∃ message, s.arrived[c.frame]? = some (c.from_, message) ∧
    options.inbound message = some ⟨some (js "req"), c.id, c.body⟩
  repliedOnce : (s.replies.map SentReply.frame).Nodup
  replied : ∀ reply ∈ s.replies, ∃ c ∈ s.calls, c.returned = true ∧ c.frame = reply.frame ∧
    c.from_ = reply.to_ ∧ c.id = reply.id
  framed : ∀ reply ∈ s.replies, ∃ body,
    options.encode (frameOf (js "res") reply.id body) = .ok reply.bytes

theorem Serving.carry (h : s.Serving options) (harrived : s.arrived <+: s'.arrived)
    (hcalls : s'.calls = s.calls) (hreplies : s'.replies = s.replies) : s'.Serving options := by
  obtain ⟨more, hmore⟩ := harrived
  refine ⟨hcalls ▸ h.invokedOnce, ?_, hreplies ▸ h.repliedOnce, hreplies ▸ hcalls ▸ h.replied,
    hreplies ▸ h.framed⟩
  intro c hc
  rw [hcalls] at hc
  obtain ⟨message, hframe, hinbound⟩ := h.invoked c hc
  refine ⟨message, ?_, hinbound⟩
  rw [← hmore, List.getElem?_append_left (List.getElem?_eq_some_iff.mp hframe).1]
  exact hframe

/-- The frame that has just arrived is handed to the handler. -/
theorem Serving.invokes (h : s.Serving options) {from_ : JsString} {message : Bytes} {id : ℤ}
    {body : CanonicalValue}
    (hinbound : options.inbound message = some ⟨some (js "req"), id, body⟩)
    (harrived : s'.arrived = s.arrived ++ [(from_, message)])
    (hcalls : s'.calls = s.calls ++ [⟨s.arrived.length, from_, id, body, false⟩])
    (hreplies : s'.replies = s.replies) : s'.Serving options := by
  refine ⟨?_, ?_, hreplies ▸ h.repliedOnce, ?_, hreplies ▸ h.framed⟩
  · rw [hcalls, List.map_append, List.map_singleton]
    apply List.nodup_append.mpr
    refine ⟨h.invokedOnce, List.nodup_singleton _, ?_⟩
    intro a ha b hb hab
    -- The frames that were handed over before arrived before.
    obtain ⟨c, hc, rfl⟩ := List.mem_map.mp ha
    obtain ⟨_, hframe, -⟩ := h.invoked c hc
    have hlt := (List.getElem?_eq_some_iff.mp hframe).1
    have hb : b = s.arrived.length := List.mem_singleton.mp hb
    omega
  · intro c hc
    rw [hcalls] at hc
    rw [harrived]
    rcases List.mem_append.mp hc with hc | hc
    · obtain ⟨message', hframe, hinbound'⟩ := h.invoked c hc
      refine ⟨message', ?_, hinbound'⟩
      rw [List.getElem?_append_left (List.getElem?_eq_some_iff.mp hframe).1]
      exact hframe
    · rw [List.mem_singleton.mp hc]
      exact ⟨message, List.getElem?_concat_length, hinbound⟩
  · intro reply hreply
    rw [hreplies] at hreply
    obtain ⟨c, hc, hrest⟩ := h.replied reply hreply
    rw [hcalls]
    exact ⟨c, List.mem_append_left _ hc, hrest⟩

/-- A reply that is sent is a response frame under the request's id. -/
theorem encodeReply_eq_some {id : ℤ} {reply : CanonicalValue} {bytes : Bytes}
    (h : encodeReply options id reply = some bytes) :
    ∃ body, options.encode (frameOf (js "res") id body) = .ok bytes := by
  unfold encodeReply at h
  split at h
  · next hok =>
    cases h
    exact ⟨reply, hok⟩
  · next detail _ =>
    refine ⟨.record [(js "error", .text (js "reply rpc frame not encodable: " ++ detail))], ?_⟩
    cases hrefusal : options.encode (frameOf (js "res") id
        (.record [(js "error", .text (js "reply rpc frame not encodable: " ++ detail))])) with
    | error _ =>
      rw [hrefusal] at h
      cases h
    | ok refusal =>
      rw [hrefusal] at h
      exact congrArg Except.ok (Option.some.inj h)

variable {call : Nat}

/-- Everything `handled` can do. -/
theorem handled_cases {outcome : HandlerOutcome} (hstep : s.handled options call outcome = some s') :
    ∃ c, s.calls[call]? = some c ∧ c.returned = false ∧
      (s' = { s with calls := s.calls.modify call fun c => { c with returned := true } } ∨
        ∃ body bytes, options.encode (frameOf (js "res") c.id body) = .ok bytes ∧
          s' = { s with
            calls := s.calls.modify call fun c => { c with returned := true }
            replies := s.replies ++ [⟨c.frame, c.from_, c.id, bytes⟩] }) := by
  unfold handled at hstep
  obtain ⟨c, hc, hstep⟩ := Option.bind_eq_some_iff.mp hstep
  split at hstep
  · cases hstep
  · next hreturned =>
    refine ⟨c, hc, Bool.not_eq_true _ ▸ hreturned, ?_⟩
    dsimp only at hstep
    split at hstep
    · cases hstep
      exact Or.inl rfl
    · split at hstep
      · cases hstep
        exact Or.inl rfl
      · next bytes hreply =>
        cases hstep
        obtain ⟨_, -, hencode⟩ := Option.bind_eq_some_iff.mp hreply
        obtain ⟨body, hframe⟩ := encodeReply_eq_some hencode
        exact Or.inr ⟨body, bytes, hframe, rfl⟩

/-- The invocations once one of them has returned. -/
theorem mem_calls_returned {x : HandlerCall}
    (h : x ∈ s.calls.modify call fun c => { c with returned := true }) :
    ∃ c ∈ s.calls, x.frame = c.frame ∧ x.from_ = c.from_ ∧ x.id = c.id ∧ x.body = c.body := by
  obtain ⟨k, hk⟩ := List.mem_iff_getElem?.mp h
  rw [List.getElem?_modify] at hk
  obtain ⟨c, hc, rfl⟩ := Option.map_eq_some_iff.mp hk
  refine ⟨c, List.mem_of_getElem? hc, ?_⟩
  split
  · exact ⟨rfl, rfl, rfl, rfl⟩
  · exact ⟨rfl, rfl, rfl, rfl⟩

theorem mem_calls_modify (call : Nat) {c : HandlerCall} (h : c ∈ s.calls) :
    ∃ x ∈ s.calls.modify call fun c => { c with returned := true },
      (c.returned = true → x.returned = true) ∧ x.frame = c.frame ∧ x.from_ = c.from_ ∧
        x.id = c.id := by
  obtain ⟨k, hk⟩ := List.mem_iff_getElem?.mp h
  refine ⟨if call = k then { c with returned := true } else c, ?_, ?_⟩
  · apply List.mem_iff_getElem?.mpr
    refine ⟨k, ?_⟩
    rw [List.getElem?_modify, hk]
    rfl
  · split
    · exact ⟨fun _ => rfl, rfl, rfl, rfl⟩
    · exact ⟨fun hreturned => hreturned, rfl, rfl, rfl⟩

theorem frames_modify (call : Nat) :
    (s.calls.modify call fun c => { c with returned := true }).map HandlerCall.frame
      = s.calls.map HandlerCall.frame := by
  apply List.ext_getElem?
  intro k
  rw [List.getElem?_map, List.getElem?_map, List.getElem?_modify, Option.map_eq_map,
    Option.map_map]
  congr 1
  funext c
  show HandlerCall.frame (if call = k then _ else _) = c.frame
  split
  · rfl
  · rfl

/-- An invocation returns, and its frame is replied to or not. -/
theorem Serving.handled (h : s.Serving options) {outcome : HandlerOutcome}
    (hstep : s.handled options call outcome = some s') : s'.Serving options := by
  obtain ⟨c, hc, hnew, hs⟩ := handled_cases hstep
  have hmem := List.mem_of_getElem? hc
  have hinvoked : ∀ x ∈ s.calls.modify call fun c => { c with returned := true },
      ∃ message, s.arrived[x.frame]? = some (x.from_, message) ∧
        options.inbound message = some ⟨some (js "req"), x.id, x.body⟩ := by
    intro x hx
    obtain ⟨c', hc', hframe, hfrom, hid, hbody⟩ := mem_calls_returned hx
    obtain ⟨message, harrived, hinbound⟩ := h.invoked c' hc'
    rw [hframe, hfrom, hid, hbody]
    exact ⟨message, harrived, hinbound⟩
  have hreplied : ∀ reply ∈ s.replies, ∃ x ∈ s.calls.modify call fun c =>
      { c with returned := true }, x.returned = true ∧ x.frame = reply.frame ∧
        x.from_ = reply.to_ ∧ x.id = reply.id := by
    intro reply hreply
    obtain ⟨c', hc', hreturned, hframe, hfrom, hid⟩ := h.replied reply hreply
    obtain ⟨x, hx, hreturned', hframe', hfrom', hid'⟩ := mem_calls_modify call hc'
    exact ⟨x, hx, hreturned' hreturned, hframe'.trans hframe, hfrom'.trans hfrom, hid'.trans hid⟩
  rcases hs with rfl | ⟨body, bytes, hencode, rfl⟩
  · exact ⟨(frames_modify call).symm ▸ h.invokedOnce, hinvoked, h.repliedOnce, hreplied, h.framed⟩
  · refine ⟨(frames_modify call).symm ▸ h.invokedOnce, hinvoked, ?_, ?_, ?_⟩
    · show ((s.replies ++ [_]).map SentReply.frame).Nodup
      rw [List.map_append, List.map_singleton]
      apply List.nodup_append.mpr
      refine ⟨h.repliedOnce, List.nodup_singleton _, ?_⟩
      intro a ha b hb hab
      -- A frame that was replied to belongs to an invocation that has returned.
      obtain ⟨reply, hreply, rfl⟩ := List.mem_map.mp ha
      obtain ⟨c', hc', hreturned, hframe, -⟩ := h.replied reply hreply
      have hb : b = c.frame := List.mem_singleton.mp hb
      have hsame : c' = c :=
        List.inj_on_of_nodup_map h.invokedOnce hc' hmem (hframe.trans (hab.trans hb))
      rw [hsame, hnew] at hreturned
      cases hreturned
    · intro reply hreply
      rcases List.mem_append.mp hreply with hold | hlast
      · exact hreplied reply hold
      · rw [List.mem_singleton.mp hlast]
        refine ⟨{ c with returned := true }, ?_, rfl, rfl, rfl, rfl⟩
        apply List.mem_iff_getElem?.mpr
        refine ⟨call, ?_⟩
        rw [List.getElem?_modify, hc, Option.map_eq_map, Option.map_some, if_pos rfl]
    · intro reply hreply
      rcases List.mem_append.mp hreply with hold | hlast
      · exact h.framed reply hold
      · rw [List.mem_singleton.mp hlast]
        exact ⟨body, hencode⟩

/-! ## Steps -/

/-- Ids are left, and what a `send` is rejected with has a text where its request is
    not settled. -/
def Tells (s : RpcEndpoint) : Action → Prop
  | .request _ _ => s.requests.length < 2 ^ 53
  | .sendRejected request (.other (.undescribable _)) =>
    ∀ r, s.requests[request]? = some r → r.settlements ≠ []
  | _ => True

/-- What every step keeps. -/
structure Sound (options : RpcOptions) (s : RpcEndpoint) : Prop where
  numbered : s.Numbered
  filed : s.Filed
  answered : s.Answered options
  serving : s.Serving options

theorem Sound.start (options : RpcOptions) : Sound options .start where
  numbered := by
    refine ⟨?_, ?_, Nat.le_refl 1⟩
    · intro n m r r' id hn
      cases hn
    · intro _ r hr
      cases hr
  filed := by
    refine ⟨?_, ?_, fun _ => rfl⟩
    · intro n r hn
      cases hn
    · intro key n hget
      cases hget
  answered := by
    intro n r frame body hn
    cases hn
  serving := by
    refine ⟨List.nodup_nil, ?_, List.nodup_nil, ?_, ?_⟩
    · intro c hc
      cases hc
    · intro reply hreply
      cases hreply
    · intro reply hreply
      cases hreply

/-- A request's end: its entry goes, its timer is cleared and it is settled. -/
def ending (s : RpcEndpoint) (key : JsString) (request : Nat) (outcome : Settlement) :
    RpcEndpoint :=
  ((s.unfile key).disarm request).settle request outcome

theorem getElem?_ending (key : JsString) (n : Nat) (outcome : Settlement) (m : Nat) :
    (s.ending key n outcome).requests[m]? = (fun r : Request =>
      if n = m then r.disarm.settle outcome else r) <$> s.requests[m]? := by
  show ((s.requests.modify n Request.disarm).modify n (Request.settle outcome))[m]? = _
  rw [List.getElem?_modify, List.getElem?_modify, Option.map_eq_map, Option.map_eq_map,
    Option.map_eq_map, Option.map_map]
  congr 1
  funext r
  by_cases hm : n = m
  · simp [hm]
  · simp [hm]

theorem sameRequests_ending (key : JsString) (n : Nat) (outcome : Settlement) :
    SameRequests s (s.ending key n outcome) := by
  refine ⟨?_, rfl, ?_⟩
  · show ((s.requests.modify n Request.disarm).modify n (Request.settle outcome)).length = _
    rw [List.length_modify, List.length_modify]
  · intro m r' hm
    rw [getElem?_ending] at hm
    obtain ⟨r, hr, rfl⟩ := Option.map_eq_some_iff.mp hm
    refine ⟨r, hr, ?_⟩
    split
    · exact ⟨rfl, rfl⟩
    · exact ⟨rfl, rfl⟩

theorem resolved_ending {m : Nat} {outcome : Settlement} {r' : Request} {frame : Nat}
    {body : CanonicalValue} (hm : (s.ending key n outcome).requests[m]? = some r')
    (hin : .resolved frame body ∈ r'.settlements) :
    ∃ r, s.requests[m]? = some r ∧ r'.to_ = r.to_ ∧ r'.id = r.id ∧
      (.resolved frame body ∈ r.settlements ∨ (m = n ∧ outcome = .resolved frame body)) := by
  rw [getElem?_ending] at hm
  obtain ⟨r, hr, rfl⟩ := Option.map_eq_some_iff.mp hm
  refine ⟨r, hr, ?_⟩
  split at hin
  · next heq =>
    rw [if_pos heq]
    refine ⟨rfl, rfl, ?_⟩
    rcases List.mem_append.mp hin with hold | hlast
    · exact Or.inl hold
    · exact Or.inr ⟨heq.symm, (List.mem_singleton.mp hlast).symm⟩
  · next hne =>
    rw [if_neg hne]
    exact ⟨rfl, rfl, Or.inl hin⟩

/-- A filed request that is rejected. -/
theorem Sound.rejects (h : s.Sound options) (hget : s.pending.get? key = some n)
    (failure : RequestFailure) :
    (s.ending key n (.rejected failure)).Sound options where
  numbered := h.numbered.of_same (sameRequests_ending key n _)
  filed := h.filed.ends hget rfl rfl _ (getElem?_ending key n _)
  answered := by
    have harrived : s.arrived <+: (s.ending key n (.rejected failure)).arrived :=
      List.prefix_refl _
    apply h.answered.carry harrived
    intro m r' frame body hm hin
    obtain ⟨r, hr, hto, hid, hold | ⟨-, hnot⟩⟩ := resolved_ending hm hin
    · exact ⟨r, hr, hto, hid, hold⟩
    · cases hnot
  serving := h.serving.carry (List.prefix_refl _) rfl rfl

/-- The transport is done with a request. -/
theorem Sound.sendEnded (h : s.Sound options) (n : Nat) : (s.sendEnded n).Sound options := by
  have hget : ∀ m : Nat, (s.sendEnded n).requests[m]? = (fun r : Request =>
      if n = m then { r with sending := false } else r) <$> s.requests[m]? :=
    fun m => List.getElem?_modify _ n s.requests m
  have hforth : ∀ (m : Nat) (r' : Request), (s.sendEnded n).requests[m]? = some r' →
      ∃ r, s.requests[m]? = some r ∧ r'.to_ = r.to_ ∧ r'.id = r.id ∧ r'.armed = r.armed ∧
        r'.settlements = r.settlements := by
    intro m r' hm
    rw [hget] at hm
    obtain ⟨r, hr, rfl⟩ := Option.map_eq_some_iff.mp hm
    refine ⟨r, hr, ?_⟩
    split
    · exact ⟨rfl, rfl, rfl, rfl⟩
    · exact ⟨rfl, rfl, rfl, rfl⟩
  refine ⟨?_, ?_, ?_, h.serving.carry (List.prefix_refl _) rfl rfl⟩
  · apply h.numbered.of_same
    refine ⟨List.length_modify _ _ _, rfl, ?_⟩
    intro m r' hm
    obtain ⟨r, hr, hto, hid, -⟩ := hforth m r' hm
    exact ⟨r, hr, hto, hid⟩
  · have hpending : (s.sendEnded n).pending = s.pending := rfl
    apply h.filed.of_flags hpending rfl
    · intro m r' hm
      obtain ⟨r, hr, hto, hid, harmed, hsettlements⟩ := hforth m r' hm
      exact ⟨r, hr, hsettlements, harmed, by rw [keyOf, keyOf, hto, hid]⟩
    · intro m r hr
      refine ⟨if n = m then { r with sending := false } else r, ?_, ?_⟩
      · rw [hget, hr]
        rfl
      · split
        · exact ⟨rfl, rfl⟩
        · exact ⟨rfl, rfl⟩
  · have harrived : s.arrived <+: (s.sendEnded n).arrived := List.prefix_refl _
    apply h.answered.carry harrived
    intro m r' frame body hm hin
    obtain ⟨r, hr, hto, hid, -, hsettlements⟩ := hforth m r' hm
    exact ⟨r, hr, hto, hid, hsettlements ▸ hin⟩

/-- A timer that fires. -/
theorem timer_cases (hstep : s.timer options n = some s') :
    ∃ r key, s.requests[n]? = some r ∧ keyOf r = some key ∧ r.armed = true ∧
      s' = s.ending key n (.rejected (.rpc (.timeout r.to_ options.timeoutMs))) := by
  unfold timer at hstep
  obtain ⟨r, hr, hstep⟩ := Option.bind_eq_some_iff.mp hstep
  obtain ⟨key, hkey, hstep⟩ := Option.bind_eq_some_iff.mp hstep
  split at hstep
  · next harmed =>
    cases hstep
    exact ⟨r, key, hr, hkey, harmed, rfl⟩
  · cases hstep

theorem Sound.timer (h : s.Sound options) (hstep : s.timer options n = some s') :
    s'.Sound options := by
  obtain ⟨r, key, hr, hkey, harmed, rfl⟩ := timer_cases hstep
  rcases h.filed.each n r hr with ⟨-, hoff⟩ | ⟨-, -, key', hkey', hget⟩
  · rw [harmed] at hoff
    cases hoff
  · obtain rfl := Option.some.inj (hkey.symm.trans hkey')
    exact h.rejects hget _

/-- Everything the `catch` of a `send` can do. -/
theorem sendRejected_cases {cause : SendRejection} (hstep : s.sendRejected n cause = some s') :
    ∃ r key, s.requests[n]? = some r ∧ keyOf r = some key ∧
      ((s.pending.get? key = none ∧ s' = s.sendEnded n) ∨
        ∃ entry, s.pending.get? key = some entry ∧
          ((failureOf r.to_ cause = none ∧
              s' = ((s.sendEnded n).unfile key).disarm entry) ∨
            ∃ error, s' = (((s.sendEnded n).unfile key).disarm entry).settle n
              (.rejected (.rpc error)))) := by
  unfold RpcEndpoint.sendRejected at hstep
  obtain ⟨r, hr, hstep⟩ := Option.bind_eq_some_iff.mp hstep
  obtain ⟨key, hkey, hstep⟩ := Option.bind_eq_some_iff.mp hstep
  refine ⟨r, key, hr, hkey, ?_⟩
  split at hstep
  · dsimp only at hstep
    split at hstep
    · next hnone =>
      cases hstep
      exact Or.inl ⟨hnone, rfl⟩
    · next entry hget =>
      refine Or.inr ⟨entry, hget, ?_⟩
      split at hstep
      · next hsilent =>
        cases hstep
        exact Or.inl ⟨hsilent, rfl⟩
      · next error _ =>
        cases hstep
        exact Or.inr ⟨error, rfl⟩
  · cases hstep

/-- A key leads to the request that has it. -/
theorem Sound.entry_eq (h : s.Sound options) {entry : Nat} (hr : s.requests[n]? = some r)
    (hkey : keyOf r = some key) (hget : s.pending.get? key = some entry) : entry = n := by
  obtain ⟨r', hr', hkey', -⟩ := h.filed.filed key entry hget
  obtain ⟨id, hid, rfl⟩ := keyOf_eq hkey
  obtain ⟨id', hid', hsame⟩ := keyOf_eq hkey'
  obtain rfl := Int.ofNat_inj.mp (pendingKey_inj hsame).2
  exact h.numbered.apart entry n r' r id hr' hr hid' hid

theorem Sound.sendRejected (h : s.Sound options) {cause : SendRejection}
    (htells : s.Tells (.sendRejected n cause)) (hstep : s.sendRejected n cause = some s') :
    s'.Sound options := by
  obtain ⟨r, key, hr, hkey, ⟨-, rfl⟩ | ⟨entry, hget, hend⟩⟩ := sendRejected_cases hstep
  · exact h.sendEnded n
  · obtain rfl := h.entry_eq hr hkey hget
    rcases hend with ⟨hsilent, -⟩ | ⟨error, rfl⟩
    · -- Without a text the request would have to be settled, and it is filed.
      obtain ⟨r', hr', -, hopen⟩ := h.filed.filed key entry hget
      cases cause with
      | refused by_ reason message => cases hsilent
      | other cause =>
        cases cause with
        | described text => cases hsilent
        | undescribable text => exact absurd hopen (htells r' hr')
    · exact (h.sendEnded entry).rejects hget _

/-- A frame that leads to nothing. -/
theorem Sound.arrives (h : s.Sound options) (from_ : JsString) (message : Bytes) :
    ({ s with arrived := s.arrived ++ [(from_, message)] } : RpcEndpoint).Sound options where
  numbered := h.numbered.of_same ⟨rfl, rfl, fun _ r hr => ⟨r, hr, rfl, rfl⟩⟩
  filed := h.filed.of_flags rfl rfl (fun _ r hr => ⟨r, hr, rfl, rfl, rfl⟩)
    fun _ r hr => ⟨r, hr, rfl, rfl⟩
  answered := h.answered.carry (List.prefix_append _ _)
    fun _ r _ _ hr hin => ⟨r, hr, rfl, rfl, hin⟩
  serving := h.serving.carry (List.prefix_append _ _) rfl rfl

theorem Sound.receive (h : s.Sound options) (from_ : JsString) (message : Bytes) :
    (s.receive options from_ message).Sound options := by
  have harrives := h.arrives from_ message
  unfold RpcEndpoint.receive
  dsimp only
  cases hinbound : options.inbound message with
  | none => exact harrives
  | some inbound =>
    obtain ⟨kind, id, body⟩ := inbound
    dsimp only
    split
    · next hkind =>
      subst hkind
      split
      · exact harrives
      · next entry hget =>
        -- The request under this key was sent to this peer, under this id.
        obtain ⟨r, hr, hkey, -⟩ := h.filed.filed _ entry hget
        obtain ⟨id', hid, hsame⟩ := keyOf_eq hkey
        obtain ⟨hpeer, rfl⟩ := pendingKey_inj hsame
        refine ⟨harrives.numbered.of_same (sameRequests_ending _ _ _),
          harrives.filed.ends hget rfl rfl _ (getElem?_ending _ _ _), ?_,
          harrives.serving.carry (List.prefix_refl _) rfl rfl⟩
        intro m r' frame body' hm hin
        obtain ⟨x, hx, hto, hxid, hold | ⟨rfl, hnew⟩⟩ := resolved_ending hm hin
        · rw [hto, hxid]
          exact harrives.answered m x frame body' hx hold
        · obtain rfl := Option.some.inj (hr.symm.trans hx)
          cases hnew
          rw [hto, ← hpeer, hxid]
          exact ⟨message, id', List.getElem?_concat_length, hid, hinbound⟩
    · split
      · next hserves =>
        obtain ⟨rfl, -⟩ := hserves
        exact ⟨harrives.numbered.of_same ⟨rfl, rfl, fun _ r hr => ⟨r, hr, rfl, rfl⟩⟩,
          harrives.filed.of_flags rfl rfl (fun _ r hr => ⟨r, hr, rfl, rfl, rfl⟩)
            fun _ r hr => ⟨r, hr, rfl, rfl⟩,
          harrives.answered.carry (List.prefix_refl _)
            fun _ r _ _ hr hin => ⟨r, hr, rfl, rfl, hin⟩,
          h.serving.invokes hinbound rfl rfl rfl⟩
      · exact harrives

/-- One more request leaves what was resolved as it was. -/
theorem Answered.asks (h : s.Answered options)
    (hunresolved : ∀ frame body, .resolved frame body ∉ r.settlements)
    (harrived : s'.arrived = s.arrived) (hrequests : s'.requests = s.requests ++ [r]) :
    s'.Answered options := by
  apply h.carry (harrived ▸ List.prefix_refl _)
  intro n r' frame body hn hin
  rw [hrequests] at hn
  rcases getElem?_concat_cases hn with hn | ⟨-, rfl⟩
  · exact ⟨r', hn, rfl, rfl, hin⟩
  · exact absurd hin (hunresolved frame body)

theorem not_resolved_of_rejected {failure : RequestFailure} (frame : Nat) (body : CanonicalValue) :
    .resolved frame body ∉ [Settlement.rejected failure] := by
  intro hin
  cases List.mem_singleton.mp hin

theorem Sound.request (h : s.Sound options) (to_ : JsString) (body : CanonicalValue)
    (hlt : s.requests.length < 2 ^ 53) : (s.request options to_ body).Sound options := by
  unfold RpcEndpoint.request
  cases hclosed : s.closed with
  | true =>
    rw [if_pos rfl]
    exact ⟨h.numbered.refuse rfl rfl rfl, h.filed.fails ⟨⟨_, rfl⟩, rfl⟩ rfl hclosed.symm rfl,
      h.answered.asks not_resolved_of_rejected rfl rfl,
      h.serving.carry (List.prefix_refl _) rfl rfl⟩
  | false =>
    rw [if_neg Bool.false_ne_true]
    dsimp only
    split
    · exact ⟨h.numbered.issue rfl rfl hlt rfl rfl,
        h.filed.fails ⟨⟨_, rfl⟩, rfl⟩ rfl hclosed.symm rfl,
        h.answered.asks not_resolved_of_rejected rfl rfl,
        h.serving.carry (List.prefix_refl _) rfl rfl⟩
    · -- Nothing is filed under the new id yet.
      have hnew : s.pending.get? (pendingKey to_ s.nextId) = none := by
        apply Option.eq_none_iff_forall_ne_some.mpr
        intro n hget
        obtain ⟨r, hr, hkey, -⟩ := h.filed.filed _ n hget
        obtain ⟨id, hid, hsame⟩ := keyOf_eq hkey
        have hnext := Int.ofNat_inj.mp (pendingKey_inj hsame).2
        have hbelow := h.numbered.next hlt r (List.mem_of_getElem? hr) id hid
        omega
      exact ⟨h.numbered.issue rfl rfl hlt rfl rfl,
        h.filed.files rfl rfl rfl hnew rfl rfl rfl,
        h.answered.asks (fun _ _ => List.not_mem_nil) rfl rfl,
        h.serving.carry (List.prefix_refl _) rfl rfl⟩

theorem Sound.close (h : s.Sound options) : s.close.Sound options := by
  cases hclosed : s.closed with
  | true =>
    unfold RpcEndpoint.close
    rw [if_pos hclosed]
    exact h
  | false =>
    have hforth : ∀ (m : Nat) (r' : Request), s.close.requests[m]? = some r' →
        ∃ r, s.requests[m]? = some r ∧ r'.to_ = r.to_ ∧ r'.id = r.id ∧
          ∀ frame body, .resolved frame body ∈ r'.settlements →
            .resolved frame body ∈ r.settlements := by
      intro m r' hm
      rw [getElem?_close h.filed hclosed] at hm
      obtain ⟨r, hr, rfl⟩ := Option.map_eq_some_iff.mp hm
      refine ⟨r, hr, ?_⟩
      split
      · refine ⟨rfl, rfl, ?_⟩
        intro frame body hin
        rcases List.mem_append.mp hin with hold | hlast
        · exact hold
        · exact absurd hlast (not_resolved_of_rejected frame body)
      · exact ⟨rfl, rfl, fun _ _ hin => hin⟩
    have hlength : s.close.requests.length = s.requests.length := by
      apply Nat.le_antisymm
      all_goals
        apply Nat.le_of_not_lt
        intro hlt
      · obtain ⟨r, hr, -⟩ := hforth _ _ (List.getElem?_eq_getElem hlt)
        exact absurd (List.getElem?_eq_some_iff.mp hr).1 (Nat.lt_irrefl _)
      · have hnone : s.close.requests[s.close.requests.length]? = none :=
          List.getElem?_eq_none (Nat.le_refl _)
        rw [getElem?_close h.filed hclosed, List.getElem?_eq_getElem hlt] at hnone
        cases hnone
    have hunchanged : s.close.nextId = s.nextId ∧ s.close.arrived = s.arrived ∧
        s.close.calls = s.calls ∧ s.close.replies = s.replies := by
      unfold RpcEndpoint.close
      rw [if_neg (by rw [hclosed]; exact Bool.false_ne_true)]
      exact ⟨rfl, rfl, rfl, rfl⟩
    obtain ⟨hnext, harrived, hcalls, hreplies⟩ := hunchanged
    refine ⟨?_, h.filed.closes, ?_, h.serving.carry (harrived ▸ List.prefix_refl _) hcalls hreplies⟩
    · apply h.numbered.of_same
      refine ⟨hlength, hnext, ?_⟩
      intro m r' hm
      obtain ⟨r, hr, hto, hid, -⟩ := hforth m r' hm
      exact ⟨r, hr, hto, hid⟩
    · apply h.answered.carry (harrived ▸ List.prefix_refl _)
      intro m r' frame body hm hin
      obtain ⟨r, hr, hto, hid, hresolved⟩ := hforth m r' hm
      exact ⟨r, hr, hto, hid, hresolved frame body hin⟩

theorem Sound.step (h : s.Sound options) {action : Action} (htells : s.Tells action)
    (hstep : s.step options action = some s') : s'.Sound options := by
  cases action with
  | request to_ body =>
    cases hstep
    exact h.request to_ body htells
  | timer n => exact h.timer hstep
  | sendResolved n =>
    cases hstep
    exact h.sendEnded n
  | sendRejected n cause => exact h.sendRejected htells hstep
  | serve =>
    cases hstep
    exact ⟨h.numbered.of_same ⟨rfl, rfl, fun _ r hr => ⟨r, hr, rfl, rfl⟩⟩,
      h.filed.of_flags rfl rfl (fun _ r hr => ⟨r, hr, rfl, rfl, rfl⟩)
        fun _ r hr => ⟨r, hr, rfl, rfl⟩,
      h.answered.carry (List.prefix_refl _) fun _ r _ _ hr hin => ⟨r, hr, rfl, rfl, hin⟩,
      h.serving.carry (List.prefix_refl _) rfl rfl⟩
  | receive from_ message =>
    cases hstep
    exact h.receive from_ message
  | handled call outcome =>
    have hserving := h.serving.handled hstep
    obtain ⟨c, -, -, hs⟩ := handled_cases hstep
    have hsame : s'.requests = s.requests ∧ s'.pending = s.pending ∧ s'.closed = s.closed ∧
        s'.nextId = s.nextId ∧ s'.arrived = s.arrived := by
      rcases hs with rfl | ⟨_, _, -, rfl⟩
      · exact ⟨rfl, rfl, rfl, rfl, rfl⟩
      · exact ⟨rfl, rfl, rfl, rfl, rfl⟩
    obtain ⟨hrequests, hpending, hclosed, hnext, harrived⟩ := hsame
    refine ⟨h.numbered.of_same ⟨by rw [hrequests], hnext, ?_⟩,
      h.filed.of_flags hpending hclosed ?_ ?_,
      h.answered.carry (harrived ▸ List.prefix_refl _) ?_, hserving⟩
    all_goals rw [hrequests]
    · exact fun _ r hr => ⟨r, hr, rfl, rfl⟩
    · exact fun _ r hr => ⟨r, hr, rfl, rfl, rfl⟩
    · exact fun _ r hr => ⟨r, hr, rfl, rfl⟩
    · exact fun _ r _ _ hr hin => ⟨r, hr, rfl, rfl, hin⟩
  | close =>
    cases hstep
    exact h.close

/-! ## What was called stays called -/

/-- No request goes, and none loses a call. -/
def Extends (requests requests' : List Request) : Prop :=
  ∀ (n : Nat) (r : Request), requests[n]? = some r →
    ∃ r', requests'[n]? = some r' ∧ r.settlements <+: r'.settlements

theorem Extends.refl (requests : List Request) : Extends requests requests :=
  fun _ r hr => ⟨r, hr, List.prefix_refl _⟩

theorem Extends.trans {a b c : List Request} (h : Extends a b) (h' : Extends b c) :
    Extends a c := by
  intro n r hr
  obtain ⟨r₁, hr₁, hfirst⟩ := h n r hr
  obtain ⟨r₂, hr₂, hsecond⟩ := h' n r₁ hr₁
  exact ⟨r₂, hr₂, hfirst.trans hsecond⟩

theorem Extends.concat (requests : List Request) (r : Request) :
    Extends requests (requests ++ [r]) := by
  intro n x hx
  refine ⟨x, ?_, List.prefix_refl _⟩
  rw [List.getElem?_append_left (List.getElem?_eq_some_iff.mp hx).1]
  exact hx

theorem Extends.modify {f : Request → Request} (hf : ∀ r, r.settlements <+: (f r).settlements)
    (requests : List Request) (n : Nat) : Extends requests (requests.modify n f) := by
  intro m r hr
  refine ⟨if n = m then f r else r, ?_, ?_⟩
  · rw [List.getElem?_modify, hr]
    rfl
  · split
    · exact hf r
    · exact List.prefix_refl _

theorem Extends.foldl {f : Request → Request} (hf : ∀ r, r.settlements <+: (f r).settlements)
    (places : List Nat) (requests : List Request) :
    Extends requests (places.foldl (fun requests place => requests.modify place f) requests) := by
  induction places generalizing requests with
  | nil => exact Extends.refl requests
  | cons place rest ih => exact (Extends.modify hf requests place).trans (ih _)

theorem settle_extends (outcome : Settlement) (r : Request) :
    r.settlements <+: (r.settle outcome).settlements :=
  List.prefix_append _ _

theorem disarm_extends (r : Request) : r.settlements <+: r.disarm.settlements :=
  List.prefix_refl _

theorem sendEnded_extends (n : Nat) : Extends s.requests (s.sendEnded n).requests := by
  have hflag : ∀ r : Request,
      r.settlements <+: ({ r with sending := false } : Request).settlements :=
    fun r => List.prefix_refl _
  exact Extends.modify hflag s.requests n

theorem ending_extends (key : JsString) (n : Nat) (outcome : Settlement) :
    Extends s.requests (s.ending key n outcome).requests :=
  (Extends.modify disarm_extends s.requests n).trans
    (Extends.modify (settle_extends outcome) _ n)

theorem step_extends {action : Action} (hstep : s.step options action = some s') :
    Extends s.requests s'.requests := by
  cases action with
  | request to_ body =>
    cases hstep
    unfold RpcEndpoint.request
    split
    · exact Extends.concat _ _
    · dsimp only
      split
      · exact Extends.concat _ _
      · exact Extends.concat _ _
  | timer n =>
    obtain ⟨r, key, -, -, -, rfl⟩ := timer_cases hstep
    exact ending_extends key n _
  | sendResolved n =>
    cases hstep
    exact sendEnded_extends n
  | sendRejected n cause =>
    obtain ⟨r, key, -, -, ⟨-, rfl⟩ | ⟨entry, -, ⟨-, rfl⟩ | ⟨error, rfl⟩⟩⟩ :=
      sendRejected_cases hstep
    · exact sendEnded_extends n
    · exact (sendEnded_extends n).trans (Extends.modify disarm_extends _ entry)
    · exact ((sendEnded_extends n).trans (Extends.modify disarm_extends _ entry)).trans
        (Extends.modify (settle_extends _) _ n)
  | serve =>
    cases hstep
    exact Extends.refl _
  | receive from_ message =>
    cases hstep
    unfold RpcEndpoint.receive
    dsimp only
    split
    · exact Extends.refl _
    · split
      · split
        · exact Extends.refl _
        · exact (Extends.modify disarm_extends _ _).trans (Extends.modify (settle_extends _) _ _)
      · split
        · exact Extends.refl _
        · exact Extends.refl _
  | handled call outcome =>
    obtain ⟨c, -, -, rfl | ⟨_, _, -, rfl⟩⟩ := handled_cases hstep
    · exact Extends.refl _
    · exact Extends.refl _
  | close =>
    cases hstep
    unfold RpcEndpoint.close
    split
    · exact Extends.refl _
    · exact Extends.foldl
        (fun r => settle_extends (.rejected (.rpc .closed)) r.disarm) s.pending.values s.requests

/-! ## Every run -/

/-- What a run in which each step meets the condition reaches. -/
def Reaches (options : RpcOptions) : RpcEndpoint → RpcEndpoint → Prop :=
  Relation.ReflTransGen fun s s' => ∃ action, s.Tells action ∧ s.step options action = some s'

theorem Reaches.sound (h : s.Reaches options s') (hsound : s.Sound options) :
    s'.Sound options := by
  induction h with
  | refl => exact hsound
  | tail _ hstep ih =>
    obtain ⟨action, htells, hnext⟩ := hstep
    exact ih.step htells hnext

theorem Reaches.extends (h : s.Reaches options s') : Extends s.requests s'.requests := by
  induction h with
  | refl => exact Extends.refl _
  | tail _ hstep ih =>
    obtain ⟨action, -, hnext⟩ := hstep
    exact ih.trans (step_extends hnext)

/-- What a node's requests and its answers have come to. -/
structure Correlated (options : RpcOptions) (s : RpcEndpoint) : Prop where
  /-- A request is settled, once, or it waits and its timer would settle it. -/
  settles : ∀ (n : Nat) (r : Request), s.requests[n]? = some r →
    (∃ outcome, r.settlements = [outcome]) ∨
      (r.settlements = [] ∧ ∃ s' r', s.timer options n = some s' ∧
        s'.requests[n]? = some r' ∧ r'.settlements
          = [.rejected (.rpc (.timeout r.to_ options.timeoutMs))])
  /-- The map holds the requests that are not settled, under their keys. -/
  pending : ∀ (key : JsString) (n : Nat), s.pending.get? key = some n ↔
    ∃ r, s.requests[n]? = some r ∧ keyOf r = some key ∧ r.settlements = []
  unsettled : ∀ (n : Nat) (r : Request), s.requests[n]? = some r → r.settlements = [] →
    ∃ key, keyOf r = some key
  closed : s.closed = true → s.pending = .empty
  answered : s.Answered options
  /-- No frame settles two requests. -/
  apart : ∀ (n m : Nat) (r r' : Request) (frame : Nat) (body body' : CanonicalValue),
    s.requests[n]? = some r → s.requests[m]? = some r' →
      .resolved frame body ∈ r.settlements → .resolved frame body' ∈ r'.settlements → n = m
  serving : s.Serving options

theorem Sound.correlated (h : s.Sound options) : s.Correlated options where
  settles := by
    intro n r hr
    rcases h.filed.each n r hr with ⟨hone, -⟩ | ⟨hopen, harmed, key, hkey, -⟩
    · exact Or.inl hone
    · refine Or.inr ⟨hopen, s.ending key n (.rejected (.rpc (.timeout r.to_ options.timeoutMs))),
        r.disarm.settle (.rejected (.rpc (.timeout r.to_ options.timeoutMs))), ?_, ?_, ?_⟩
      · unfold RpcEndpoint.timer
        rw [hr, Option.bind_eq_bind, Option.bind_some, hkey, Option.bind_eq_bind, Option.bind_some,
          if_pos harmed]
        rfl
      · rw [getElem?_ending, hr, Option.map_eq_map, Option.map_some, if_pos rfl]
      · show r.settlements ++ [_] = [_]
        rw [hopen]
        rfl
  pending := by
    intro key n
    constructor
    · exact h.filed.filed key n
    · rintro ⟨r, hr, hkey, hopen⟩
      rcases h.filed.each n r hr with ⟨⟨outcome, hone⟩, -⟩ | ⟨-, -, key', hkey', hget⟩
      · rw [hopen] at hone
        cases hone
      · obtain rfl := Option.some.inj (hkey.symm.trans hkey')
        exact hget
  unsettled := by
    intro n r hr hopen
    rcases h.filed.each n r hr with ⟨⟨outcome, hone⟩, -⟩ | ⟨-, -, key, hkey, -⟩
    · rw [hopen] at hone
      cases hone
    · exact ⟨key, hkey⟩
  closed := h.filed.closed
  answered := h.answered
  apart := by
    intro n m r r' frame body body' hr hr' hin hin'
    obtain ⟨message, id, hframe, hid, hinbound⟩ := h.answered n r frame body hr hin
    obtain ⟨message', id', hframe', hid', hinbound'⟩ := h.answered m r' frame body' hr' hin'
    -- One message has one id.
    rw [hframe, Option.some.injEq, Prod.mk.injEq] at hframe'
    rw [hframe'.2, hinbound', Option.some.injEq, InboundFrame.mk.injEq] at hinbound
    have hsame : id' = id := Int.ofNat_inj.mp hinbound.2.1
    exact h.numbered.apart n m r r' id hr hr' hid (hsame ▸ hid')
  serving := h.serving

/-- In every run whose ids last and whose rejected sends have a text, requests and
    replies are correlated, and what was settled stays as it was settled. -/
theorem correlation_is_exact (h : RpcEndpoint.start.Reaches options s) :
    s.Correlated options ∧
      ∀ s', s.Reaches options s' → ∀ (n : Nat) (r : Request) (outcome : Settlement),
        s.requests[n]? = some r → r.settlements = [outcome] →
          ∃ r', s'.requests[n]? = some r' ∧ r'.settlements = [outcome] := by
  have hsound := h.sound (Sound.start options)
  refine ⟨hsound.correlated, ?_⟩
  intro s' hon n r outcome hr hone
  obtain ⟨r', hr', hprefix⟩ := hon.extends n r hr
  refine ⟨r', hr', ?_⟩
  obtain ⟨more, hmore⟩ := hprefix
  rw [hone] at hmore
  rcases ((hon.sound hsound).correlated).settles n r' hr' with ⟨last, hlast⟩ | ⟨hopen, -⟩
  · rw [hlast] at hmore ⊢
    rw [(List.cons.inj hmore).1]
  · rw [hopen] at hmore
    cases hmore

/-- A message of two bytes is a frame without a body: its kind and its id. -/
def terse : RpcOptions where
  encode _ := .ok []
  decode
    | [kind, id] => some (frameOf (if kind = 0 then js "req" else js "res") id.val .null)
    | _ => none
  timeoutMs := 30000

/-- One request, a forged reply, the reply, and the reply again. -/
def forgedThenAnswered : List Action :=
  [.request (js "a") .null, .receive (js "b") [1, 1], .receive (js "a") [1, 1],
    .receive (js "a") [1, 1]]

theorem correlation_is_exact_answered :
    ∃ s, RpcEndpoint.start.run terse forgedThenAnswered = some s ∧
      s.requests.map Request.settlements = [[.resolved 1 .null]] ∧ s.Correlated terse := by
  refine ⟨_, rfl, rfl, (correlation_is_exact ?_).1⟩
  refine .head ⟨.request (js "a") .null, ?_, rfl⟩ (.head ⟨.receive (js "b") [1, 1], trivial, rfl⟩
    (.head ⟨.receive (js "a") [1, 1], trivial, rfl⟩
      (.single ⟨.receive (js "a") [1, 1], trivial, rfl⟩)))
  show 0 < 2 ^ 53
  omega

/-- A `send` is rejected with an object that has no text: the request is neither filed
    nor settled, and no timer is left. -/
theorem textless_rejection_settles_nothing :
    ∃ s, RpcEndpoint.start.run terse [.request (js "a") .null,
        .sendRejected 0 (.other (.undescribable (js "e")))] = some s ∧
      ¬ s.Correlated terse := by
  refine ⟨_, rfl, ?_⟩
  intro hclaim
  rcases hclaim.settles 0 _ rfl with ⟨outcome, hone⟩ | ⟨-, s', r', htimer, -⟩
  · cases hone
  · cases htimer

end RpcEndpoint

end O2Fabric.Net
