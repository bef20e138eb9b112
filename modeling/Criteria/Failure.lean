import Criteria.Json.Fault

/-!
# Failures

Why a query could not be evaluated, or its options not be read.
-/

namespace Criteria

/-- The cause of a failure. -/
inductive Failure where
  | unknownAttribute (name : String)
  | invalidTraversal (name : String)
  | unsupportedOperator (what : String)
  | backend (what : String)
  | configuration (fault : Json.Fault)
deriving DecidableEq

/-- The message of a failure. -/
def Failure.message : Failure → String
  | .unknownAttribute name => "属性不存在: " ++ name
  | .invalidTraversal name => "无效的关联遍历: " ++ name
  | .unsupportedOperator what => "不支持的操作符: " ++ what
  | .backend what => "查询引擎错误: " ++ what
  | .configuration fault => "配置错误: " ++ fault.word

/-- A property was named by nothing but white space where a condition on it was to be registered. -/
inductive Misuse where
  | blankName
deriving DecidableEq

/-- The message of a misuse. -/
def Misuse.message : Misuse → String
  | .blankName => "属性名不能为空"

end Criteria
