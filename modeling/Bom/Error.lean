/-!
# Errors

Three kinds of caller see three kinds of error. Stores of products and orders report what went wrong
in the store; the engine adds what is wrong with a bill of materials; the service says what its
caller can understand. Each error is a cause, and `message` is its wording.

Arithmetic on instants may leave the calendar. That is no fault of the data's meaning and has no
wording: it is the cause `outOfCalendar`.

* `StoreError`, `EngineError`, `ServiceError`: the causes.
* `ServiceError.ofEngine`: how the service words the errors of the engine.
-/

namespace Bom

/-- What can go wrong in a store of products or orders. -/
inductive StoreError where
  | notFound (entity id : String)
  | connection (text : String)
  | lock (text : String)
  | query (text : String)
  | unique (text : String)
  | foreignKey (text : String)
  | validation (text : String)
  | fieldValue (field text : String)
  | internal (text : String)
  | other (text : String)
  deriving DecidableEq, Repr

namespace StoreError

/-- The wording of a store's error. -/
def message : StoreError → String
  | notFound entity id => s!"记录未找到: {entity} with id={id}"
  | connection text => s!"数据库连接失败: {text}"
  | lock text => s!"数据库锁获取失败: {text}"
  | query text => s!"数据库查询失败: {text}"
  | unique text => s!"唯一约束违反: {text}"
  | foreignKey text => s!"外键约束违反: {text}"
  | validation text => s!"数据验证失败: {text}"
  | fieldValue field text => s!"字段值错误 (field={field}): {text}"
  | internal text => s!"内部错误: {text}"
  | other text => text

end StoreError

/-- What can go wrong while a bill of materials is unfolded, counted or ordered. -/
inductive EngineError where
  | store (error : StoreError)
  | productNotFound (product : String)
  /-- a product occurs below itself -/
  | cycle (product : String)
  /-- a product occurs too deep -/
  | maxDepth (limit : Nat) (product : String)
  /-- a calculation failed -/
  | calculation (method text : String)
  /-- a date lies outside of the calendar -/
  | outOfCalendar
  deriving DecidableEq, Repr

namespace EngineError

/-- The wording of an engine's error. -/
def message : EngineError → String
  | store error => error.message
  | productNotFound product => s!"产品不存在: product_id={product}"
  | cycle product => s!"BOM 存在循环引用: product_id={product}"
  | maxDepth limit product => s!"BOM 层级超过上限: max_depth={limit}, product_id={product}"
  | calculation method text => s!"自定义用量计算失败 (method={method}): {text}"
  | outOfCalendar => ""

end EngineError

/-- What the service tells its caller. -/
inductive ServiceError where
  | invalidInput (text : String)
  | notFound (text : String)
  | businessRule (text : String)
  | engine (text : String)
  | database (text : String)
  | connection (text : String)
  | validation (text : String)
  | internal (text : String)
  | other (text : String)
  | outOfCalendar
  deriving DecidableEq, Repr

namespace ServiceError

/-- The wording of a service's error. -/
def message : ServiceError → String
  | invalidInput text => s!"无效输入: {text}"
  | notFound text => s!"资源未找到: {text}"
  | businessRule text => s!"业务规则违反: {text}"
  | engine text => s!"BOM 引擎错误: {text}"
  | database text => s!"数据库错误: {text}"
  | connection text => s!"数据库连接失败: {text}"
  | validation text => s!"数据验证失败: {text}"
  | internal text => s!"内部错误: {text}"
  | other text => text
  | outOfCalendar => ""

/-- The service's error for a store's error. -/
def ofStore : StoreError → ServiceError
  | .notFound entity id => .notFound s!"{entity}(id={id})不存在"
  | .connection text => .connection text
  | .lock text => .connection s!"数据库锁获取失败: {text}"
  | .query text => .database text
  | .unique text => .businessRule s!"唯一约束违反: {text}"
  | .foreignKey text => .businessRule s!"外键约束违反: {text}"
  | .validation text => .validation text
  | .fieldValue field text => .invalidInput s!"字段{field}错误: {text}"
  | .internal text => .internal text
  | .other text => .other text

/-- The service's error for an engine's error. -/
def ofEngine : EngineError → ServiceError
  | .store error => ofStore error
  | .productNotFound product => .notFound s!"产品(id={product})不存在"
  | .outOfCalendar => .outOfCalendar
  | error => .engine error.message

end ServiceError

end Bom
