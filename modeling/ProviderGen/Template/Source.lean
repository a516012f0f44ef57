import ProviderGen.Java.ResourceKey
import ProviderGen.Template.Lines

/-!
Sources that are written anew on every run. All of them start with the marker line. The class
of an object has one annotated declaration per field; the root class also has a constant per
identifier and a method for every way to identify the resource.
-/

namespace ProviderGen.Template

open ProviderGen.Java (JavaClass JavaField Operation ResourceKey KeyGroup ResourceKeys)

/-- The first line of every file that belongs to the generator. -/
def marker : String := "// This is a generated file. Modifications will be overwritten."

def baseConfiguration (package : String) : Lines := [
  marker,
  "package " ++ package ++ ";",
  "",
  "import java.io.InputStream;",
  "import org.json.JSONObject;",
  "import org.json.JSONTokener;",
  "",
  "public abstract class BaseConfiguration \x7b",
  "",
  "    protected final String schemaFilename;",
  "",
  "    public BaseConfiguration(final String schemaFilename) \x7b",
  "        this.schemaFilename = schemaFilename;",
  "    \x7d",
  "",
  "    public JSONObject resourceSchemaJSONObject() \x7b",
  "        final InputStream schema = this.getClass().getClassLoader().getResourceAsStream(schemaFilename);",
  "        return new JSONObject(new JSONTokener(schema));",
  "    \x7d",
  "",
  "\x7d"]

def baseHandler (package model : String) : Lines := [
  marker,
  "package " ++ package ++ ";",
  "",
  "import com.amazonaws.cloudformation.proxy.AmazonWebServicesClientProxy;",
  "import com.amazonaws.cloudformation.proxy.Logger;",
  "import com.amazonaws.cloudformation.proxy.ProgressEvent;",
  "import com.amazonaws.cloudformation.proxy.ResourceHandlerRequest;",
  "",
  "public abstract class BaseHandler<CallbackT> \x7b",
  "",
  "    public abstract ProgressEvent<" ++ model ++ ", CallbackT> handleRequest(",
  "        final AmazonWebServicesClientProxy proxy,",
  "        final ResourceHandlerRequest<" ++ model ++ "> request,",
  "        final CallbackT callbackContext,",
  "        final Logger logger);",
  "",
  "\x7d"]

def registration (op : Operation) : String :=
  "        handlers.put(Action." ++ op.action ++ ", new " ++ op.handlerClass ++ "());"

def handlerWrapper (package model : String) (operations : List Operation) : Lines := [
  marker,
  "package " ++ package ++ ";",
  "",
  "import com.amazonaws.cloudformation.Action;",
  "import com.amazonaws.cloudformation.LambdaWrapper;",
  "import com.amazonaws.cloudformation.proxy.AmazonWebServicesClientProxy;",
  "import com.amazonaws.cloudformation.proxy.HandlerRequest;",
  "import com.amazonaws.cloudformation.proxy.LoggerProxy;",
  "import com.amazonaws.cloudformation.proxy.ProgressEvent;",
  "import com.amazonaws.cloudformation.proxy.RequestData;",
  "import com.amazonaws.cloudformation.proxy.ResourceHandlerRequest;",
  "import com.fasterxml.jackson.core.type.TypeReference;",
  "",
  "import java.util.HashMap;",
  "import java.util.Map;",
  "",
  "import org.json.JSONObject;",
  "",
  "public final class HandlerWrapper extends LambdaWrapper<" ++ model ++ ", CallbackContext> \x7b",
  "",
  "    private final Configuration configuration = new Configuration();",
  "    private final Map<Action, BaseHandler<CallbackContext>> handlers = new HashMap<>();",
  "",
  "    public HandlerWrapper() \x7b",
  "        initialiseHandlers();",
  "    \x7d",
  "",
  "    private void initialiseHandlers() \x7b"] ++
  operations.map registration ++ [
  "    \x7d",
  "",
  "    @Override",
  "    public ProgressEvent<" ++ model ++ ", CallbackContext> invokeHandler(",
  "        final AmazonWebServicesClientProxy proxy,",
  "        final ResourceHandlerRequest<" ++ model ++ "> request,",
  "        final Action action,",
  "        final CallbackContext callbackContext) \x7b",
  "",
  "        final String actionName = (action == null) ? \"<null>\" : action.toString();",
  "        if (!handlers.containsKey(action)) \x7b",
  "            throw new RuntimeException(\"Unknown action \" + actionName);",
  "        \x7d",
  "",
  "        final BaseHandler<CallbackContext> handler = handlers.get(action);",
  "",
  "        loggerProxy.log(String.format(\"[%s] invoking handler...\", actionName));",
  "        final ProgressEvent<" ++ model ++ ", CallbackContext> result",
  "            = handler.handleRequest(proxy, request, callbackContext, loggerProxy);",
  "        loggerProxy.log(String.format(\"[%s] handler invoked\", actionName));",
  "        return result;",
  "    \x7d",
  "",
  "    @Override",
  "    public JSONObject provideResourceSchemaJSONObject() \x7b",
  "        return this.configuration.resourceSchemaJSONObject();",
  "    \x7d",
  "",
  "    @Override",
  "    protected ResourceHandlerRequest<" ++ model ++ "> transform(final HandlerRequest<" ++
    model ++ ", CallbackContext> request) \x7b",
  "        final RequestData<" ++ model ++ "> requestData = request.getRequestData();",
  "",
  "        return ResourceHandlerRequest.<" ++ model ++ ">builder()",
  "            .clientRequestToken(request.getBearerToken())",
  "            .desiredResourceState(requestData != null ? requestData.getResourceProperties() : null)",
  "            .previousResourceState(requestData != null ? requestData.getPreviousResourceProperties() : null)",
  "            .logicalResourceIdentifier(requestData != null ? requestData.getLogicalResourceId() : null)",
  "            .build();",
  "    \x7d",
  "",
  "    @Override",
  "    protected TypeReference<HandlerRequest<" ++ model ++
    ", CallbackContext>> getTypeReference() \x7b",
  "        return new TypeReference<HandlerRequest<" ++ model ++ ", CallbackContext>>() \x7b\x7d;",
  "    \x7d",
  "\x7d"]

def constantDeclaration (k : ResourceKey) : Lines := [
  "",
  "    public static final String " ++ k.constant ++ " = \"" ++ k.pointer ++ "\";"]

def fieldDeclaration (f : JavaField) : Lines := [
  "",
  "    @JsonProperty(\"" ++ f.literal ++ "\")",
  "    private " ++ f.type.text ++ " " ++ f.identifier ++ ";"]

def keyStatement (k : ResourceKey) : Lines := [
  "        if (" ++ k.nullChecks ++ ") \x7b",
  "            identifier.put(" ++ k.constant ++ ", " ++ k.getterChain ++ ");",
  "        \x7d"]

/-- A method that gives the identifier made of `keys`, if all of them are present. -/
def identifierMethod (name : String) (keys : List ResourceKey) : Lines := [
  "",
  "    public JSONObject " ++ name ++ "() \x7b",
  "        final JSONObject identifier = new JSONObject();"] ++
  keys.flatMap keyStatement ++ [
  "",
  "        // only return the identifier if it can be used, i.e. if all components are present",
  "        return identifier.length() == " ++ toString keys.length ++ " ? identifier : null;",
  "    \x7d"]

def groupStatement (g : KeyGroup) : Lines := [
  "        if (" ++ g.method ++ "() != null) \x7b",
  "            identifiers.add(" ++ g.method ++ "());",
  "        \x7d"]

/-- The method that lists the additional identifiers. -/
def additionalMethod (groups : List KeyGroup) : Lines := [
  "",
  "    public List<JSONObject> getAdditionalIdentifiers() \x7b",
  "        final List<JSONObject> identifiers = new ArrayList<JSONObject>();"] ++
  groups.flatMap groupStatement ++ [
  "",
  "        // only return the identifiers if any can be used",
  "        return identifiers.isEmpty() ? null : identifiers;",
  "    \x7d"]

def rootConstants (typeName : String) (ks : ResourceKeys) : Lines := [
  "",
  "    public static final String TYPE_NAME = \"" ++ typeName ++ "\";"] ++
  ks.all.flatMap constantDeclaration

def rootMethods (ks : ResourceKeys) : Lines :=
  identifierMethod "getPrimaryIdentifier" ks.primary ++ additionalMethod ks.additional ++
    ks.additional.flatMap fun g => identifierMethod g.method g.keys

/-- What stands before the fields of a class. -/
def modelHead (package name : String) : Lines := [
  marker,
  "package " ++ package ++ ";",
  "",
  "import com.fasterxml.jackson.annotation.JsonProperty;",
  "import java.util.ArrayList;",
  "import java.util.List;",
  "import java.util.Map;",
  "import java.util.Set;",
  "import lombok.AllArgsConstructor;",
  "import lombok.Builder;",
  "import lombok.Data;",
  "import lombok.NoArgsConstructor;",
  "import org.json.JSONObject;",
  "",
  "@Data",
  "@Builder",
  "@AllArgsConstructor",
  "@NoArgsConstructor",
  "public class " ++ name ++ " \x7b"]

def model (typeName : String) (c : JavaClass) (ks : ResourceKeys) : Lines :=
  modelHead c.package.dotted c.name ++
    (if c.isRoot then rootConstants typeName ks else []) ++
    c.fields.flatMap fieldDeclaration ++
    (if c.isRoot then rootMethods ks else []) ++ ["\x7d"]

end ProviderGen.Template
